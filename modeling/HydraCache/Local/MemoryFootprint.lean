import HydraCache.Lib.OrderedMap
import HydraCache.Lib.Run
import HydraCache.Local.RemovalObserver
import Mathlib.Data.List.Perm.Basic
import Mathlib.Data.String.Basic

/-!
# The memory footprint counters

A cache with memory instrumentation keeps counters of what its entries retain: how many there are,
the bytes of their keys, values and tags, and an estimate of the whole. A put adds the share of its
entry when the entry is in the store. The store reports every removal (an invalidation, a
replacement, an eviction) to the removal observer, which subtracts the share again. Both sides
compute it from the same lengths (`EntryMemoryDelta.ofEntry`). The counters are atomic words that
wrap, and a wrap is remembered as a fault, for good.

Puts, removals, reports and drains interleave here in any order. A put has stored its entry some
time before it counts it, and a removal is reported some time after it happened, possibly again.

Where every removal is reported after its put has counted the entry, and reported again only while
the observer remembers it, nothing faults and at rest the counters are the sums over the live
entries (`counters_exact`). Two puts of one key are enough to report the first entry before it is
counted (`count_after_report_faults`).

Scope. Instrumentation is on, and a put that has stored its entry goes on to count it. The eight
additions of a put are one step, as are the subtractions of a report, and a drained ticket is
acknowledged and its slot freed in one step. The shares of the entries in the store and on their way
out are taken to fit a word together. They are estimates (the tag index is charged the key once for
each tag), so memory alone does not bound them.
-/

set_option autoImplicit false

namespace HydraCache.Local

open Lib RemovalObserver List OrderedMap

/-! ### The estimate -/

inductive RetainedByteEstimateError where
  | overflow (component : String)
deriving DecidableEq

/-- Sizes of the target's own types. -/
structure EntryLayout where
  cacheEntryBytes : ℕ
  stringHeader : ℕ

def primaryIndexMetadataBytes : ℕ := 96

def tagIndexMembershipMetadataBytes : ℕ := 64

def expirySchedulerMetadataBytes : ℕ := 32

structure RetainedByteEstimate where
  encodedKeyBytes : ℕ
  valueBytes : ℕ
  cacheEntryBytes : ℕ
  primaryIndexBytes : ℕ
  tagVectorBytes : ℕ
  tagStringBytes : ℕ
  tagIndexBytes : ℕ
  expiryBytes : ℕ
  totalBytes : ℕ

variable {key : Key} {layout : EntryLayout}

namespace RetainedByteEstimate

/-- A number that has to fit a word. -/
def word (n : ℕ) (component : String) : Except RetainedByteEstimateError ℕ :=
  if n ≤ maxWord then .ok n else .error (.overflow component)

def usizeToU64 (value : ℕ) (component : String) : Except RetainedByteEstimateError ℕ :=
  word value component

def checkedAdd (left right : ℕ) (component : String) : Except RetainedByteEstimateError ℕ :=
  word (left + right) component

def checkedMul (left right : ℕ) (component : String) : Except RetainedByteEstimateError ℕ :=
  word (left * right) component

/-- The bytes of the tags, and of their places in the index, with one more tag. -/
def addTag (encodedKeyBytes : ℕ) (sums : ℕ × ℕ) (tag : Tag) :
    Except RetainedByteEstimateError (ℕ × ℕ) := do
  let tagBytes ← usizeToU64 tag.utf8ByteSize "tag_string_bytes"
  let tagStringBytes ← checkedAdd sums.1 tagBytes "tag_string_bytes"
  let membership ← checkedAdd tagIndexMembershipMetadataBytes encodedKeyBytes "tag_index_bytes"
  let membership ← checkedAdd membership tagBytes "tag_index_bytes"
  let tagIndexBytes ← checkedAdd sums.2 membership "tag_index_bytes"
  pure (tagStringBytes, tagIndexBytes)

def forEntry (layout : EntryLayout) (key : Key) (valueBytes : ℕ) (tags : List Tag)
    (expires : Bool) :
    Except RetainedByteEstimateError RetainedByteEstimate := do
  let encodedKeyBytes ← usizeToU64 key.utf8ByteSize "encoded_key_bytes"
  let valueBytes ← usizeToU64 valueBytes "value_bytes"
  let cacheEntryBytes ← usizeToU64 layout.cacheEntryBytes "cache_entry_bytes"
  let tagCount ← usizeToU64 tags.length "tag_count"
  let stringHeader ← usizeToU64 layout.stringHeader "string_header"
  let tagVectorBytes ← checkedMul tagCount stringHeader "tag_vector_bytes"
  let tagSums ← tags.foldlM (addTag encodedKeyBytes) (0, 0)
  let expiryBytes := if expires then expirySchedulerMetadataBytes else 0
  let totalBytes ← [encodedKeyBytes, valueBytes, cacheEntryBytes, primaryIndexMetadataBytes,
    tagVectorBytes, tagSums.1, tagSums.2, expiryBytes].foldlM
      (fun total component ↦ checkedAdd total component "total_bytes") 0
  pure {
    encodedKeyBytes, valueBytes, cacheEntryBytes
    primaryIndexBytes := primaryIndexMetadataBytes
    tagVectorBytes
    tagStringBytes := tagSums.1
    tagIndexBytes := tagSums.2
    expiryBytes, totalBytes }

def tagRetainedBytes (estimate : RetainedByteEstimate) : Except RetainedByteEstimateError ℕ :=
  [estimate.tagVectorBytes, estimate.tagStringBytes, estimate.tagIndexBytes].foldlM
    (fun total component ↦ checkedAdd total component "tag_retained_bytes") 0

theorem word_eq_ok_iff {n m : ℕ} {component : String} :
    word n component = .ok m ↔ n ≤ maxWord ∧ n = m := by
  unfold word
  split_ifs with h
  · simp [h]
  · simp [h]

theorem foldlM_addTag {encodedKeyBytes : ℕ} {tags : List Tag} {start sums : ℕ × ℕ}
    (h : tags.foldlM (addTag encodedKeyBytes) start = .ok sums) :
    sums.1 = start.1 + (tags.map String.utf8ByteSize).sum := by
  induction tags generalizing start with
  | nil =>
    cases h
    rfl
  | cons _ _ ih =>
    rw [foldlM_cons] at h
    obtain ⟨next, hnext, hrest⟩ := bind_eq_ok_iff.mp h
    simp only [addTag, usizeToU64, checkedAdd, bind_eq_ok_iff, word_eq_ok_iff] at hnext
    obtain ⟨_, ⟨-, rfl⟩, _, ⟨-, rfl⟩, _, -, _, -, _, -, hnext⟩ := hnext
    cases hnext
    rw [ih hrest, map_cons, sum_cons, Nat.add_assoc]

/-- An estimate has the lengths it was made from. -/
theorem forEntry_lengths {valueBytes : ℕ} {tags : List Tag}
    {expires : Bool} {estimate : RetainedByteEstimate}
    (h : forEntry layout key valueBytes tags expires = .ok estimate) :
    estimate.encodedKeyBytes = key.utf8ByteSize ∧ estimate.valueBytes = valueBytes ∧
      estimate.tagStringBytes = (tags.map String.utf8ByteSize).sum := by
  simp only [forEntry, usizeToU64, bind_eq_ok_iff, word_eq_ok_iff] at h
  obtain ⟨_, ⟨-, rfl⟩, _, ⟨-, rfl⟩, _, -, _, -, _, -, _, -, tagSums, htags, _, -, h⟩ := h
  cases h
  refine ⟨rfl, rfl, ?_⟩
  rw [foldlM_addTag htags, Nat.zero_add]

end RetainedByteEstimate

/-! ### The counters -/

inductive Counter where
  | entries
  | keyBytes
  | valueBytes
  | tagMemberships
  | tagStringBytes
  | expiryRecords
  | estimatedRetainedBytes
  | estimatedTagRetainedBytes
deriving DecidableEq

def Counter.all : List Counter :=
  [.entries, .keyBytes, .valueBytes, .tagMemberships, .tagStringBytes, .expiryRecords,
    .estimatedRetainedBytes, .estimatedTagRetainedBytes]

/-- The share of an entry in each counter. -/
def EntryMemoryDelta := Counter → ℕ

def EntryMemoryDelta.new (layout : EntryLayout) (key : Key) (valueBytes : ℕ) (tags : List Tag)
    (expires : Bool) : Except RetainedByteEstimateError EntryMemoryDelta := do
  let estimate ← RetainedByteEstimate.forEntry layout key valueBytes tags expires
  let tagMemberships ← RetainedByteEstimate.usizeToU64 tags.length "tag_memberships"
  let estimatedTagRetainedBytes ← estimate.tagRetainedBytes
  pure fun
    | .entries => 1
    | .keyBytes => estimate.encodedKeyBytes
    | .valueBytes => estimate.valueBytes
    | .tagMemberships => tagMemberships
    | .tagStringBytes => estimate.tagStringBytes
    | .expiryRecords => if expires then 1 else 0
    | .estimatedRetainedBytes => estimate.totalBytes
    | .estimatedTagRetainedBytes => estimatedTagRetainedBytes

/-- The share of an entry, as a put and the observer compute it. -/
def EntryMemoryDelta.ofEntry (layout : EntryLayout) (key : Key) (entry : CacheEntry) :
    Except RetainedByteEstimateError EntryMemoryDelta :=
  EntryMemoryDelta.new layout key entry.value.length entry.tags entry.expiresAt.isSome

variable {delta : EntryMemoryDelta}

/-- The shares in the counters of the lengths. -/
theorem EntryMemoryDelta.ofEntry_lengths {entry : CacheEntry}
    (h : EntryMemoryDelta.ofEntry layout key entry = .ok delta) :
    delta .entries = 1 ∧ delta .keyBytes = key.utf8ByteSize ∧
      delta .valueBytes = entry.value.length ∧ delta .tagMemberships = entry.tags.length ∧
      delta .tagStringBytes = (entry.tags.map String.utf8ByteSize).sum := by
  obtain ⟨estimate, hestimate, h⟩ := bind_eq_ok_iff.mp h
  obtain ⟨tagMemberships, hmems, h⟩ := bind_eq_ok_iff.mp h
  obtain ⟨_, _, h⟩ := bind_eq_ok_iff.mp h
  cases h
  obtain ⟨hkey, hvalue, htags⟩ := RetainedByteEstimate.forEntry_lengths hestimate
  exact ⟨rfl, hkey, hvalue, (RetainedByteEstimate.word_eq_ok_iff.mp hmems).2.symm, htags⟩

structure MemoryFootprintCounters where
  values : Counter → ℕ := fun _ ↦ 0
  faulted : Bool := false

namespace MemoryFootprintCounters

section

variable (memory : MemoryFootprintCounters)

/-- Add a share, wrapping. A wrap is a fault. -/
def insert (delta : EntryMemoryDelta) : MemoryFootprintCounters where
  values counter := (memory.values counter + delta counter) % wordSize
  faulted := memory.faulted ||
    Counter.all.any fun counter ↦ maxWord < memory.values counter + delta counter

/-- Subtract a share, wrapping. A wrap is a fault. -/
def remove (delta : EntryMemoryDelta) : MemoryFootprintCounters where
  values counter := (memory.values counter + wordSize - delta counter) % wordSize
  faulted := memory.faulted || Counter.all.any fun counter ↦ memory.values counter < delta counter

def markFault : MemoryFootprintCounters :=
  { memory with faulted := true }

end

end MemoryFootprintCounters

/-! ### Puts, removals and reports -/

/-- A put on its way, before or after it has stored its entry. -/
structure CountingPut where
  key : Key
  entry : CacheEntry
  delta : EntryMemoryDelta
  stored : Bool

/-- The cache with the puts that have not counted their entry yet, the removals not reported yet,
and the removals reported so far. -/
structure AccountedCache where
  store : OrderedMap Key CacheEntry := ∅
  puts : List CountingPut := []
  removals : List (Key × CacheEntry) := []
  reported : List (Key × CacheEntry) := []
  nextEntryVersion : ℕ := 1
  memory : MemoryFootprintCounters := {}
  observer : RemovalObserver := {}

inductive AccountEvent where
  | put (key : Key) (value : Bytes) (tags : List Tag) (expiresAt : Option Instant)
  | insert (put : ℕ)
  | count (put : ℕ)
  | remove (key : Key)
  | report (removal : ℕ)
  | reportAgain (removal : ℕ)
  | drain
  | reset
deriving DecidableEq

namespace AccountedCache

variable (layout : EntryLayout)

/-- The share of an entry in a counter, nothing where there is none. -/
def weight (counter : Counter) (row : Key × CacheEntry) : ℕ :=
  match EntryMemoryDelta.ofEntry layout row.1 row.2 with
  | .ok delta => delta counter
  | .error _ => 0

/-- The shares of some entries together. -/
def weightOf (counter : Counter) (rows : List (Key × CacheEntry)) : ℕ :=
  (rows.map (weight layout counter)).sum

section

variable (s : AccountedCache)

/-- The entries in the store, and those on their way out. -/
def held : List (Key × CacheEntry) := s.store.rows ++ s.removals

/-- The shares of the entries held fit a word. -/
def fits : Bool :=
  Counter.all.all fun counter ↦ weightOf layout counter s.held ≤ maxWord

/-- The observer is told of a removal. A removal it remembers is a repetition. -/
def observe (row : Key × CacheEntry) : AccountedCache :=
  let slotVersion := s.observer.inflightVersions (slot row.2.version)
  if slotVersion ≠ 0 ∧ slotVersion = row.2.version then s
  else
    match EntryMemoryDelta.ofEntry layout row.1 row.2 with
    | .ok delta =>
      { s with memory := s.memory.remove delta, observer := s.observer.observe row.1 row.2 }
    | .error _ =>
      { s with
        memory := s.memory.markFault
        observer := { s.observer.observe row.1 row.2 with dirty := true } }

/-- The first part of a put: it takes a version and computes its share, or fails. -/
def beginPut (key : Key) (value : Bytes) (tags : List Tag)
    (expiresAt : Option Instant) : AccountedCache :=
  if s.nextEntryVersion < maxWord then
    let entry : CacheEntry := { value, tags, expiresAt, version := s.nextEntryVersion }
    let versioned := { s with nextEntryVersion := s.nextEntryVersion + 1 }
    match EntryMemoryDelta.ofEntry layout key entry with
    | .ok delta => { versioned with puts := s.puts ++ [{ key, entry, delta, stored := false }] }
    | .error _ => versioned
  else s

/-- The put stores its entry. One that was there is on its way out. -/
def insertPut (i : ℕ) (put : CountingPut) : AccountedCache :=
  { s with
    store := s.store.insert put.key put.entry
    removals := s.removals ++ (s.store.get put.key).toList.map (put.key, ·)
    puts := s.puts.set i { put with stored := true } }

def step : AccountEvent → Option AccountedCache
  | .put key value tags expiresAt => some (s.beginPut layout key value tags expiresAt)
  | .insert i => s.puts[i]?.bind fun put ↦
    if !put.stored && (s.insertPut i put).fits layout then some (s.insertPut i put) else none
  | .count i => s.puts[i]?.bind fun put ↦
    if put.stored then
      some { s with memory := s.memory.insert put.delta, puts := s.puts.eraseIdx i }
    else none
  | .remove key => (s.store.get key).map fun entry ↦
    { s with store := s.store.remove key, removals := s.removals ++ [(key, entry)] }
  | .report i => s.removals[i]?.map fun row ↦
    { s.observe layout row with removals := s.removals.eraseIdx i, reported := row :: s.reported }
  | .reportAgain i => s.reported[i]?.map (s.observe layout)
  | .drain =>
    match s.observer.queue with
    | [] => none
    | ticket :: queue =>
      some { s with observer := ({ s.observer with queue }).acknowledgeOne.releaseSlot ticket }
  | .reset => some { s with observer := s.observer.resetAfterReconcile }

/-- A removal is reported when its put has counted the entry, and again only while the observer
remembers it. -/
def CountedFirst : AccountEvent → Prop
  | .report i => ∀ row ∈ s.removals[i]?, ∀ put ∈ s.puts, put.entry.version ≠ row.2.version
  | .reportAgain i => ∀ row ∈ s.reported[i]?,
    s.observer.inflightVersions (slot row.2.version) = row.2.version
  | _ => True

end

instance CountedFirst.decidable (s : AccountedCache) : ∀ event, Decidable (CountedFirst s event)
  | .report _ => inferInstanceAs (Decidable (∀ row ∈ _, ∀ put ∈ _, _))
  | .reportAgain _ => inferInstanceAs (Decidable (∀ row ∈ _, _))
  | .put .. | .insert _ | .count _ | .remove _ | .drain | .reset => .isTrue trivial

end AccountedCache

/-! ### What is counted -/

namespace CountingPut

def row (put : CountingPut) : Key × CacheEntry := (put.key, put.entry)

/-- The entries of the puts that have stored theirs, or of those that have not. -/
def rows (stored : Bool) (puts : List CountingPut) : List (Key × CacheEntry) :=
  (puts.filter (·.stored == stored)).map row

theorem rows_cons (stored : Bool) (put : CountingPut) (puts : List CountingPut) :
    rows stored (put :: puts) = (if put.stored == stored then [put.row] else []) ++
      rows stored puts := by
  rw [rows, filter_cons]
  split_ifs <;> rfl

theorem rows_concat (stored : Bool) (put : CountingPut) (puts : List CountingPut) :
    rows stored (puts ++ [put]) = rows stored puts ++ if put.stored == stored then [put.row]
      else [] := by
  rw [rows, filter_append, map_append, filter_cons]
  split_ifs <;> rfl

variable {puts : List CountingPut} {i : ℕ} {put : CountingPut}

theorem rows_perm_eraseIdx (stored : Bool) (hput : puts[i]? = some put) :
    (rows stored puts).Perm
      ((if put.stored == stored then [put.row] else []) ++ rows stored (puts.eraseIdx i)) := by
  obtain ⟨hi, rfl⟩ := List.getElem?_eq_some_iff.mp hput
  rw [← rows_cons]
  exact ((getElem_cons_eraseIdx_perm hi).symm.filter _).map row

/-- One put moves on. -/
theorem rows_set_perm (stored : Bool) (hput : puts[i]? = some put) (next : CountingPut) :
    (rows stored (puts.set i next)).Perm
      ((if next.stored == stored then [next.row] else []) ++ rows stored (puts.eraseIdx i)) := by
  obtain ⟨hi, rfl⟩ := List.getElem?_eq_some_iff.mp hput
  rw [← rows_cons]
  exact ((set_perm_cons_eraseIdx hi next).filter _).map row

end CountingPut

open CountingPut

namespace AccountedCache

/-- The entries of puts that have not stored them yet. -/
def waiting (s : AccountedCache) : List (Key × CacheEntry) := rows false s.puts

/-- The entries of puts that have stored but not counted them. -/
def uncounted (s : AccountedCache) : List (Key × CacheEntry) := rows true s.puts

/-- All entries there ever were. -/
def everything (s : AccountedCache) : List (Key × CacheEntry) := s.waiting ++ s.held ++ s.reported

/-- The entries held are those still to be counted and those counted, which the counters sum up.
Every entry has a version of its own, and the observer remembers versions it was told of. -/
structure Balanced (layout : EntryLayout) (counted : List (Key × CacheEntry)) (s : AccountedCache) :
    Prop where
  shares : s.held.Perm (s.uncounted ++ counted)
  values : ∀ counter, s.memory.values counter = weightOf layout counter counted
  sound : s.memory.faulted = false
  room : ∀ counter, weightOf layout counter s.held ≤ maxWord
  deltas : ∀ put ∈ s.puts, EntryMemoryDelta.ofEntry layout put.key put.entry = .ok put.delta
  measured : ∀ row ∈ s.held, ∃ delta, EntryMemoryDelta.ofEntry layout row.1 row.2 = .ok delta
  distinct : (s.everything.map (·.2.version)).Nodup
  started : 0 < s.nextEntryVersion
  versions : ∀ row ∈ s.everything, 0 < row.2.version ∧ row.2.version < s.nextEntryVersion
  slots : ∀ i, s.observer.inflightVersions i = 0 ∨
    ∃ row ∈ s.reported, s.observer.inflightVersions i = row.2.version

section Balance

variable {counted rows other : List (Key × CacheEntry)} {s s' : AccountedCache}
  {counter : Counter} {i : ℕ} {put : CountingPut} {row : Key × CacheEntry}

theorem weight_eq
    (h : EntryMemoryDelta.ofEntry layout row.1 row.2 = .ok delta) (counter : Counter) :
    weight layout counter row = delta counter := by
  rw [weight, h]

theorem weightOf_perm (h : rows.Perm other) (counter : Counter) :
    weightOf layout counter rows = weightOf layout counter other :=
  (h.map (weight layout counter)).sum_nat

@[simp] theorem weightOf_cons :
    weightOf layout counter (row :: rows) =
      weight layout counter row + weightOf layout counter rows := by
  rw [weightOf, map_cons, sum_cons, weightOf]

@[simp] theorem weightOf_append :
    weightOf layout counter (rows ++ other) =
      weightOf layout counter rows + weightOf layout counter other := by
  rw [weightOf, map_append, sum_append_nat, weightOf, weightOf]

/-- The counters have room for what is counted. -/
theorem Balanced.weightOf_counted_le (h : Balanced layout counted s) (counter : Counter) :
    weightOf layout counter counted ≤ maxWord := by
  have hroom := h.room counter
  rw [weightOf_perm h.shares, weightOf_append] at hroom
  omega

/-- An entry that is stored is held, and the one it replaces still is. -/
theorem held_insertPut (s : AccountedCache) (i : ℕ) (put : CountingPut) :
    (s.insertPut i put).held.Perm (put.row :: s.held) := by
  have hins := rows_insert_perm s.store put.key put.entry
  have hrepl : ((s.store.remove put.key).rows ++
      (s.removals ++ (s.store.get put.key).toList.map (put.key, ·))).Perm
        (s.store.rows ++ s.removals) := by
    cases hget : s.store.get put.key with
    | none => rw [remove_of_get_eq_none _ hget, Option.toList_none, map_nil, append_nil]
    | some =>
      rw [Option.toList_some, map_singleton, ← append_assoc]
      refine perm_append_singleton _ _ |>.trans ?_
      exact ((rows_perm_of_get _ hget).symm.append_right s.removals)
  exact (hins.append_right _).trans (hrepl.cons ..)

theorem everything_insertPut (hput : s.puts[i]? = some put) (hsto : put.stored = false) :
    (s.insertPut i put).everything.Perm s.everything := by
  have hpre := rows_perm_eraseIdx false hput
  have hafter := rows_set_perm false hput { put with stored := true }
  rw [hsto] at hpre
  have hmoved :
      ((s.insertPut i put).waiting ++ (s.insertPut i put).held).Perm (s.waiting ++ s.held) := by
    refine (hafter.append (held_insertPut ..)).trans ?_
    refine perm_middle.trans ?_
    exact (hpre.append_right ..).symm
  exact hmoved.append_right s.reported

theorem uncounted_insertPut (hput : s.puts[i]? = some put) (hsto : put.stored = false) :
    (s.insertPut i put).uncounted.Perm (put.row :: s.uncounted) := by
  have hpre := rows_perm_eraseIdx true hput
  have hafter := rows_set_perm true hput { put with stored := true }
  rw [hsto] at hpre
  exact hafter.trans (hpre.symm.cons ..)

theorem fits_iff : s.fits layout = true ↔ ∀ counter, weightOf layout counter s.held ≤ maxWord := by
  rw [fits, all_eq_true]
  constructor
  · intro h counter
    exact of_decide_eq_true (h counter (by cases counter <;> decide))
  · exact fun h counter _ ↦ decide_eq_true (h counter)

section

variable (h : Balanced layout counted s)
include h

theorem versions_of_perm (hperm : s'.everything.Perm s.everything)
    (hver : s'.nextEntryVersion = s.nextEntryVersion) :
    (s'.everything.map (·.2.version)).Nodup ∧
      ∀ row ∈ s'.everything, 0 < row.2.version ∧ row.2.version < s'.nextEntryVersion := by
  refine ⟨(hperm.map _).nodup_iff.mpr h.distinct, fun row hrow ↦ ?_⟩
  rw [hver]
  exact h.versions row (hperm.mem_iff.mp hrow)

/-- A put comes whose entry has a version of its own. -/
theorem balanced_concat (hsto : put.stored = false)
    (hdelta : EntryMemoryDelta.ofEntry layout put.key put.entry = .ok put.delta)
    (hver : put.entry.version = s.nextEntryVersion) :
    Balanced layout counted
      { s with puts := s.puts ++ [put], nextEntryVersion := s.nextEntryVersion + 1 } := by
  have hunc : rows true (s.puts ++ [put]) = s.uncounted := by
    rw [rows_concat, hsto]
    exact append_nil _
  have hwait : rows false (s.puts ++ [put]) = s.waiting ++ [put.row] := by
    rw [rows_concat, hsto]
    rfl
  have hevery : (AccountedCache.everything
      { s with puts := s.puts ++ [put], nextEntryVersion := s.nextEntryVersion + 1 }).Perm
        (put.row :: s.everything) := by
    change (rows false (s.puts ++ [put]) ++ s.held ++ s.reported).Perm _
    rw [hwait, append_assoc, append_assoc]
    refine perm_middle.trans (.of_eq ?_)
    exact congrArg (put.row :: ·) (append_assoc s.waiting s.held s.reported).symm
  refine ⟨?_, h.values, h.sound, h.room, ?_, h.measured, ?_, Nat.succ_pos _, fun row hrow ↦ ?_,
    h.slots⟩
  · change s.held.Perm (rows true (s.puts ++ [put]) ++ counted)
    rw [hunc]
    exact h.shares
  · exact forall_mem_append.mpr ⟨h.deltas, forall_mem_singleton.mpr hdelta⟩
  · refine (hevery.map _).nodup_iff.mpr (nodup_cons.mpr ⟨fun hmem ↦ ?_, h.distinct⟩)
    obtain ⟨row, hrow, hsame⟩ := mem_map.mp hmem
    have hlt := (h.versions row hrow).2
    rw [hsame] at hlt
    exact absurd hver (Nat.ne_of_lt hlt)
  · rcases mem_cons.mp (hevery.mem_iff.mp hrow) with rfl | hmem
    · change 0 < put.entry.version ∧ put.entry.version < s.nextEntryVersion + 1
      rw [hver]
      exact ⟨h.started, Nat.lt_succ_self _⟩
    · exact (h.versions row hmem).imp_right Nat.lt_succ_of_lt

theorem balanced_beginPut (key : Key) (value : Bytes) (tags : List Tag)
    (expiresAt : Option Instant) :
    Balanced layout counted (s.beginPut layout key value tags expiresAt) := by
  unfold beginPut
  split_ifs
  · dsimp only
    split
    · rename_i delta hdelta
      exact balanced_concat h rfl hdelta rfl
    · exact { h with
        started := Nat.succ_pos _
        versions := fun row hrow ↦ (h.versions row hrow).imp_right Nat.lt_succ_of_lt }
  · exact h

theorem balanced_insertPut (hput : s.puts[i]? = some put)
    (hsto : put.stored = false) (hfits : (s.insertPut i put).fits layout = true) :
    Balanced layout counted (s.insertPut i put) := by
  obtain ⟨hdist, hvers⟩ := versions_of_perm h (everything_insertPut hput hsto) rfl
  refine ⟨?_, h.values, h.sound, fits_iff.mp hfits, fun other hother ↦ ?_, fun row hrow ↦ ?_,
    hdist, h.started, hvers, h.slots⟩
  · refine (held_insertPut ..).trans ((h.shares.cons ..).trans ?_)
    exact (uncounted_insertPut hput hsto).symm.append_right counted
  · rcases mem_or_eq_of_mem_set hother with hmem | rfl
    · exact h.deltas other hmem
    · exact h.deltas put (mem_of_getElem? hput)
  · rcases mem_cons.mp ((held_insertPut s i put).mem_iff.mp hrow) with rfl | hmem
    · exact ⟨put.delta, h.deltas put (mem_of_getElem? hput)⟩
    · exact h.measured row hmem

/-- The put counts its entry. There is room, since the entry is held. -/
theorem balanced_count (hput : s.puts[i]? = some put) (hsto : put.stored = true) :
    Balanced layout (put.row :: counted)
      { s with memory := s.memory.insert put.delta, puts := s.puts.eraseIdx i } := by
  have hweight (counter : Counter) : weight layout counter put.row = put.delta counter :=
    weight_eq (h.deltas put (mem_of_getElem? hput)) counter
  have hunc : s.uncounted.Perm (put.row :: rows true (s.puts.eraseIdx i)) := by
    have hperm := rows_perm_eraseIdx true hput
    rwa [hsto] at hperm
  have hwait : s.waiting.Perm (rows false (s.puts.eraseIdx i)) := by
    have hperm := rows_perm_eraseIdx false hput
    rwa [hsto] at hperm
  have hshares : s.held.Perm (rows true (s.puts.eraseIdx i) ++ put.row :: counted) :=
    h.shares.trans ((hunc.append_right ..).trans perm_middle.symm)
  have hroom (counter : Counter) : s.memory.values counter + put.delta counter ≤ maxWord := by
    have hle := h.room counter
    rw [weightOf_perm hshares, weightOf_append, weightOf_cons, hweight] at hle
    rw [h.values]
    omega
  have hevery : (AccountedCache.everything
      { s with memory := s.memory.insert put.delta, puts := s.puts.eraseIdx i }).Perm
        s.everything :=
    (hwait.symm.append_right s.held).append_right s.reported
  obtain ⟨hdist, hvers⟩ := versions_of_perm h hevery rfl
  refine ⟨hshares, fun counter ↦ ?_, ?_, h.room, fun other hother ↦ ?_, h.measured, hdist,
    h.started, hvers, h.slots⟩
  · change (s.memory.values counter + put.delta counter) % wordSize = _
    rw [weightOf_cons, hweight, Nat.mod_eq_of_lt (Nat.lt_of_le_of_lt (hroom counter) (by decide)),
      h.values]
    exact Nat.add_comm _ _
  · change (s.memory.faulted || _) = false
    rw [h.sound, Bool.false_or, any_eq_false]
    intro counter _
    simpa using hroom counter
  · exact h.deltas other (mem_of_mem_eraseIdx hother)

theorem balanced_remove {entry : CacheEntry} (hget : s.store.get key = some entry) :
    Balanced layout counted
      { s with store := s.store.remove key, removals := s.removals ++ [(key, entry)] } := by
  have hheld : (AccountedCache.held
      { s with store := s.store.remove key, removals := s.removals ++ [(key, entry)] }).Perm
        s.held := by
    rw [held, ← append_assoc]
    refine (perm_append_singleton _ _).trans ?_
    exact (rows_perm_of_get _ hget).symm.append_right s.removals
  have hevery : (AccountedCache.everything
      { s with store := s.store.remove key, removals := s.removals ++ [(key, entry)] }).Perm
        s.everything := (hheld.append_left ..).append_right s.reported
  obtain ⟨hdist, hvers⟩ := versions_of_perm h hevery rfl
  refine ⟨hheld.trans h.shares, h.values, h.sound, fun counter ↦ ?_, h.deltas, fun row hrow ↦ ?_,
    hdist, h.started, hvers, h.slots⟩
  · rw [weightOf_perm hheld]
    exact h.room counter
  · exact h.measured row (hheld.mem_iff.mp hrow)

/-! ### Reports -/

/-- The observer does not remember a removal it was not told of. -/
theorem observe_eq (hrow : row ∈ s.removals)
    (hdelta : EntryMemoryDelta.ofEntry layout row.1 row.2 = .ok delta) :
    s.observe layout row =
      { s with memory := s.memory.remove delta, observer := s.observer.observe row.1 row.2 } := by
  rw [observe, if_neg, hdelta]
  rintro ⟨hne, hsame⟩
  rcases h.slots (slot row.2.version) with hzero | ⟨told, htold, hslot⟩
  · exact hne hzero
  · -- the version would be that of a removal told and of one not told
    have hdist := h.distinct
    rw [everything, map_append, nodup_append] at hdist
    have hheld : row.2.version ∈ (s.waiting ++ s.held).map (·.2.version) :=
      mem_map.mpr ⟨row, mem_append_right _ (mem_append_right _ hrow), rfl⟩
    have hrep : told.2.version ∈ s.reported.map (·.2.version) := mem_map.mpr ⟨told, htold, rfl⟩
    exact hdist.2.2 _ hheld _ hrep (hsame.symm.trans hslot)

/-- A removal whose put has counted the entry is reported: the entry is one of those counted. -/
theorem balanced_report (hrow : s.removals[i]? = some row)
    (hcnt : ∀ put ∈ s.puts, put.entry.version ≠ row.2.version) :
    ∃ rest, Balanced layout rest
      { s.observe layout row with
        removals := s.removals.eraseIdx i, reported := row :: s.reported } := by
  have hmem : row ∈ s.removals := mem_of_getElem? hrow
  have hrems : s.removals.Perm (row :: s.removals.eraseIdx i) := by
    obtain ⟨hi, rfl⟩ := List.getElem?_eq_some_iff.mp hrow
    exact (getElem_cons_eraseIdx_perm hi).symm
  have hheld : s.held.Perm (row :: (s.store.rows ++ s.removals.eraseIdx i)) :=
    (hrems.append_left ..).trans perm_middle
  have hrowHeld : row ∈ s.held := hheld.mem_iff.mpr mem_cons_self
  obtain ⟨delta, hdelta⟩ := h.measured row hrowHeld
  have hweight := weight_eq hdelta
  -- no put still has to count the entry
  have hmemCounted : row ∈ counted := by
    rcases mem_append.mp (h.shares.mem_iff.mp hrowHeld) with hunc | hmem
    · obtain ⟨put, hput, hsame⟩ := mem_map.mp hunc
      exact absurd (congrArg (·.2.version) hsame) (hcnt put (mem_of_mem_filter hput))
    · exact hmem
  have hperm : counted.Perm (row :: counted.erase row) := perm_cons_erase hmemCounted
  have hshares :
      (s.store.rows ++ s.removals.eraseIdx i).Perm (s.uncounted ++ counted.erase row) := by
    refine List.Perm.cons_inv (a := row) (hheld.symm.trans (h.shares.trans ?_))
    exact (hperm.append_left ..).trans perm_middle
  have hvals (counter : Counter) :
      s.memory.values counter = delta counter + weightOf layout counter (counted.erase row) := by
    rw [h.values, weightOf_perm hperm, weightOf_cons, hweight]
  have hroom (counter : Counter) := h.weightOf_counted_le counter
  have hevery : (s.waiting ++ (s.store.rows ++ s.removals.eraseIdx i) ++ row :: s.reported).Perm
      s.everything := by
    refine perm_middle.trans ?_
    refine (perm_middle.symm.append_right ..).trans ?_
    exact (hheld.symm.append_left ..).append_right s.reported
  rw [observe_eq h hmem hdelta]
  refine ⟨counted.erase row, hshares, fun counter ↦ ?_, ?_, fun counter ↦ ?_, h.deltas,
    fun other hother ↦ ?_,
    (hevery.map _).nodup_iff.mpr h.distinct, h.started, fun other hother ↦ ?_, fun slot ↦ ?_⟩
  · change (s.memory.values counter + wordSize - delta counter) % wordSize = _
    have hle := hroom counter
    rw [← h.values, hvals] at hle
    have hword : weightOf layout counter (counted.erase row) < wordSize := by
      have : maxWord < wordSize := by decide
      omega
    rw [hvals, Nat.add_assoc, Nat.add_sub_cancel_left, Nat.add_mod_right, Nat.mod_eq_of_lt hword]
  · change (s.memory.faulted || _) = false
    rw [h.sound, Bool.false_or, any_eq_false]
    intro counter _
    have := hvals counter
    simp only [decide_eq_true_eq, not_lt]
    omega
  · have hle := h.room counter
    rw [weightOf_perm hheld, weightOf_cons] at hle
    change weightOf layout counter (s.store.rows ++ s.removals.eraseIdx i) ≤ maxWord
    omega
  · exact h.measured other (hheld.mem_iff.mpr (mem_cons_of_mem _ hother))
  · exact h.versions other (hevery.mem_iff.mp hother)
  · rcases inflightVersions_observe s.observer row.1 row.2 slot with hsame | hnew
    · rcases h.slots slot with hzero | ⟨told, htold, hslot⟩
      · exact .inl (hsame.trans hzero)
      · exact .inr ⟨told, mem_cons_of_mem _ htold, hsame.trans hslot⟩
    · exact .inr ⟨row, mem_cons_self, hnew⟩

/-- Nothing but the observer changes, and it remembers nothing new. -/
theorem balanced_observer {observer : RemovalObserver}
    (hslots : ∀ slot, observer.inflightVersions slot = s.observer.inflightVersions slot ∨
      observer.inflightVersions slot = 0) : Balanced layout counted { s with observer } := by
  refine { h with slots := fun slot ↦ ?_ }
  rcases hslots slot with hsame | hzero
  · rcases h.slots slot with hzero | ⟨told, htold, hslot⟩
    · exact .inl (hsame.trans hzero)
    · exact .inr ⟨told, htold, hsame.trans hslot⟩
  · exact .inl hzero

end

theorem balanced_step {event : AccountEvent} (hfirst : CountedFirst s event)
    (h : ∃ counted, Balanced layout counted s) (hstep : s.step layout event = some s') :
    ∃ counted, Balanced layout counted s' := by
  obtain ⟨counted, h⟩ := h
  cases event with
  | put =>
    cases hstep
    exact ⟨counted, balanced_beginPut h ..⟩
  | insert =>
    obtain ⟨put, hput, hins⟩ := Option.bind_eq_some_iff.mp hstep
    split_ifs at hins with hready
    cases hins
    obtain ⟨hsto, hfits⟩ := Bool.and_eq_true_iff.mp hready
    exact ⟨counted, balanced_insertPut h hput (by simpa using hsto) hfits⟩
  | count =>
    obtain ⟨put, hput, hcount⟩ := Option.bind_eq_some_iff.mp hstep
    split_ifs at hcount with hsto
    cases hcount
    exact ⟨put.row :: counted, balanced_count h hput hsto⟩
  | remove =>
    obtain ⟨entry, hget, rfl⟩ := Option.map_eq_some_iff.mp hstep
    exact ⟨counted, balanced_remove h hget⟩
  | report =>
    obtain ⟨row, hrow, rfl⟩ := Option.map_eq_some_iff.mp hstep
    exact balanced_report h hrow (hfirst row hrow)
  | reportAgain =>
    obtain ⟨row, hrow, rfl⟩ := Option.map_eq_some_iff.mp hstep
    have hpos := (h.versions row (mem_append_right _ (mem_of_getElem? hrow))).1
    have hrem := hfirst row hrow
    refine ⟨counted, ?_⟩
    unfold observe
    rwa [if_pos ⟨hrem.trans_ne (Nat.ne_of_gt hpos), hrem⟩]
  | drain =>
    change (match s.observer.queue with
      | [] => none
      | _ :: _ => _) = _ at hstep
    split at hstep
    · cases hstep
    · rename_i ticket queue hqueue
      cases hstep
      refine ⟨counted, balanced_observer h fun slot ↦ ?_⟩
      have := inflightVersions_releaseSlot ({ s.observer with queue }).acknowledgeOne ticket slot
      rwa [inflightVersions_acknowledgeOne] at this
  | reset =>
    cases hstep
    exact ⟨counted, balanced_observer h fun _ ↦ .inr rfl⟩

theorem balanced_initial (layout : EntryLayout) : Balanced layout [] {} where
  shares := .nil
  values _ := rfl
  sound := rfl
  room _ := Nat.zero_le _
  deltas := nofun
  measured := nofun
  distinct := .nil
  started := Nat.one_pos
  versions := nofun
  slots _ := .inl rfl

/-! ### The counters at rest -/

/-- Assumes: entries that have a share, and a counter in which the share is a length of the
entry. -/
theorem weightOf_eq_sum {size : Key × CacheEntry → ℕ}
    (hmeasured : ∀ row ∈ rows, ∃ delta, EntryMemoryDelta.ofEntry layout row.1 row.2 = .ok delta)
    (hsize : ∀ row delta, EntryMemoryDelta.ofEntry layout row.1 row.2 = .ok delta →
      delta counter = size row) : weightOf layout counter rows = (rows.map size).sum := by
  refine congrArg sum (map_congr_left fun row hrow ↦ ?_)
  obtain ⟨delta, hdelta⟩ := hmeasured row hrow
  exact (weight_eq hdelta counter).trans (hsize row delta hdelta)

/-- Assumes: a run in which every removal is reported after its put has counted the entry, and again
only while the observer remembers it. Nothing has faulted. With no put on its way and every removal
reported, clean observer or not, each counter is the sum of the shares of the live entries, and the
counters of lengths are the sums of the lengths. -/
theorem counters_exact (layout : EntryLayout) (events : List AccountEvent)
    (hfirst : Along (step layout) CountedFirst {} events)
    (hrun : run (step layout) {} events = some s) :
    s.memory.faulted = false ∧
      (s.puts = [] → s.removals = [] →
        (∀ counter, s.memory.values counter = weightOf layout counter s.store.rows) ∧
        s.memory.values .entries = s.store.rows.length ∧
        s.memory.values .keyBytes = (s.store.rows.map (·.1.utf8ByteSize)).sum ∧
        s.memory.values .valueBytes = (s.store.rows.map (·.2.value.length)).sum ∧
        s.memory.values .tagMemberships = (s.store.rows.map (·.2.tags.length)).sum ∧
        s.memory.values .tagStringBytes =
          (s.store.rows.map fun row ↦ (row.2.tags.map String.utf8ByteSize).sum).sum) := by
  obtain ⟨counted, h⟩ := run_invariant (I := fun s ↦ ∃ counted, Balanced layout counted s)
    (fun _ _ _ ↦ balanced_step) ⟨[], balanced_initial ..⟩ hfirst hrun
  refine ⟨h.sound, fun hputs hrems ↦ ?_⟩
  have hheld : s.held = s.store.rows := by rw [held, hrems, append_nil]
  have hunc : s.uncounted = [] := by
    rw [uncounted, hputs]
    rfl
  have hcnt : s.store.rows.Perm counted := by
    have hshares := h.shares
    rwa [hheld, hunc, nil_append] at hshares
  have hvals (counter : Counter) : s.memory.values counter =
      weightOf layout counter s.store.rows := by
    rw [h.values, weightOf_perm hcnt]
  refine ⟨hvals, ?_⟩
  simp only [hvals]
  rw [hheld.symm]
  refine ⟨?_,
    weightOf_eq_sum h.measured fun _ _ hdelta ↦ (EntryMemoryDelta.ofEntry_lengths hdelta).2.1,
    weightOf_eq_sum h.measured fun _ _ hdelta ↦ (EntryMemoryDelta.ofEntry_lengths hdelta).2.2.1,
    weightOf_eq_sum h.measured fun _ _ hdelta ↦ (EntryMemoryDelta.ofEntry_lengths hdelta).2.2.2.1,
    weightOf_eq_sum h.measured fun _ _ hdelta ↦ (EntryMemoryDelta.ofEntry_lengths hdelta).2.2.2.2⟩
  rw [weightOf_eq_sum h.measured fun _ _ hdelta ↦ (EntryMemoryDelta.ofEntry_lengths hdelta).1]
  simp

end Balance

/-- Two puts of one key, the first of which counts its entry before the second replaces it. -/
theorem counters_exact_replaced :
    ∃ s, run (step ⟨88, 24⟩) {} [.put "k" [1, 2] ["t"] none, .insert 0, .count 0,
        .put "k" [3] [] none, .insert 0, .report 0, .count 0, .reportAgain 0, .drain] = some s ∧
      s.memory.faulted = false ∧
      s.memory.values .valueBytes = (s.store.rows.map (·.2.value.length)).sum := by
  refine exists_eq_some (fun s ↦ s.puts.isEmpty ∧ s.removals.isEmpty) (by decide +kernel)
    fun s hrun ⟨hputs, hrems⟩ ↦ ?_
  obtain ⟨hsound, hrest⟩ := counters_exact ⟨88, 24⟩ _ (by decide +kernel) hrun
  exact ⟨hsound, (hrest (isEmpty_iff.mp hputs) (isEmpty_iff.mp hrems)).2.2.2.1⟩

/-- Two puts of one key, the second of which replaces the first one's entry before the first has
counted it. The report of the replacement subtracts from counters at zero, and the fault stays when
the counts have come in. -/
theorem count_after_report_faults :
    (run (step ⟨88, 24⟩) {} [.put "k" [1, 2] ["t"] none, .insert 0, .put "k" [3] [] none, .insert 1,
      .report 0]).map (·.memory.faulted) = some true ∧
    (run (step ⟨88, 24⟩) {} [.put "k" [1, 2] ["t"] none, .insert 0, .put "k" [3] [] none, .insert 1,
      .report 0, .count 0, .count 0, .drain]).map (fun s ↦
        (s.puts.isEmpty, s.removals.isEmpty, s.observer.isClean, s.memory.faulted)) =
      some (true, true, true, true) := by
  decide +kernel

end AccountedCache

end HydraCache.Local
