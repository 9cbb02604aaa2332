import HydraCache.Grid.DurableCodec
import HydraCache.Lib.OrderedMap
import Mathlib.Algebra.BigOperators.Group.List.Basic
import Mathlib.Data.Nat.Digits.Defs

/-!
# The durable value store and the store in memory

The durable value store keeps records in a sled tree, under their keys behind a common prefix, and
counts the bytes of its records as it goes. The store in memory keeps a map of records and sums
their bytes at every write. Both merge a record into the one under its key and refuse a record that
does not fit the budget.

`Represents` relates the two: the tree holds exactly the records of the map, each as the codec
writes it. Every request is answered alike and keeps the relation, so the replies to any sequence of
requests are alike (`durable_refines`), the two list the same records in the same order, the counter
is the sum of the bytes and within the budget, and opening the tree again gives the same store. That
holds for sequences in which no write takes the bytes past 2⁶⁴ - 1 (`Countable`), which a smaller
budget rules out by itself. Under the largest budget every write fits, and the counter stays behind;
and a refusal names the store it comes from (`durable_differs`).

Scope. The tree is an ordered map whose operations do not fail. The order of the map in memory is
that of the bytes of its keys, which is how the source orders strings.
-/

set_option autoImplicit false

namespace HydraCache.Grid

open Lib OrderedMap ReplicatedValueRecord Option AList

/-! ### The durable store -/

def formatKey : Bytes := utf8 "hydracache:durable-value-store:format"

def recordPrefix : Bytes := utf8 "record:"

def recordKey (key : Key) : Bytes := recordPrefix ++ utf8 key

def isRecordKey (stored : Bytes) : Bool := recordPrefix.isPrefixOf stored

def storedKeyToCacheKey (stored : Bytes) : Except ValueStoreError Key :=
  if isRecordKey stored then
    match ofUtf8 (stored.drop recordPrefix.length) with
    | some key => .ok key
    | none => .error ⟨"durable value record key is not utf-8"⟩
  else .error ⟨"invalid durable value record key prefix"⟩

structure DurableValueStore where
  db : OrderedMap Bytes Bytes
  maxTotalBytes : ℕ
  budgetUsedBytes : ℕ
  rejectedTotal : ℕ := 0

def decodeRow (row : Bytes × Bytes) : Except ValueStoreError (Key × ReplicatedValueRecord) := do
  let key ← storedKeyToCacheKey row.1
  let record ← decodeRecord key row.2
  .ok (key, record)

/-- Sum the bytes of the rows to a running total. -/
def sumRows : ℕ → List (Bytes × Bytes) → Except ValueStoreError ℕ
  | total, [] => .ok total
  | total, row :: rows => do
    let decoded ← decodeRow row
    sumRows (saturatingAdd total decoded.2.approxBytes) rows

def scanTotalBytes (db : OrderedMap Bytes Bytes) : Except ValueStoreError ℕ :=
  sumRows 0 (db.scan isRecordKey)

def readU32Exact (bytes : Bytes) (context : String) : Except ValueStoreError ℕ :=
  if bytes.length = 4 then .ok (ofLittleEndian bytes) else .error ⟨"invalid " ++ context⟩

def validateOrInitializeFormat (db : OrderedMap Bytes Bytes) :
    Except ValueStoreError (OrderedMap Bytes Bytes) :=
  match db.get formatKey with
  | some bytes => do
    let found ← readU32Exact bytes "durable value-store format marker"
    if found ≠ durableValueFormatVersion then
      .error ⟨"unsupported durable value-store format " ++ decimal found ++ "; expected " ++
        decimal durableValueFormatVersion⟩
    else .ok db
  | none => .ok (db.insert formatKey (littleEndian 4 durableValueFormatVersion))

namespace DurableValueStore

def openWithBudget (db : OrderedMap Bytes Bytes) (maxTotalBytes : ℕ) :
    Except ValueStoreError DurableValueStore := do
  let db ← validateOrInitializeFormat db
  let budgetUsedBytes ← scanTotalBytes db
  .ok { db, maxTotalBytes := max maxTotalBytes 1, budgetUsedBytes }

section

variable (store : DurableValueStore)

def wouldFit (existingBytes : ℕ) (record : ReplicatedValueRecord) : Bool :=
  decide (saturatingAdd (store.budgetUsedBytes - existingBytes) record.approxBytes ≤
    store.maxTotalBytes)

def get (key : Key) : Except ValueStoreError (Option ReplicatedValueRecord) :=
  match store.db.get (recordKey key) with
  | none => .ok none
  | some bytes => do
    let record ← decodeRecord key bytes
    .ok (some record)

def upsert (key : Key) (record : ReplicatedValueRecord) :
    Except ValueStoreError Unit × DurableValueStore :=
  match store.get key with
  | .error error => (.error error, store)
  | .ok current =>
    let existingBytes := (current.map approxBytes).getD 0
    if store.wouldFit existingBytes record then
      let merged := current.elim record fun current ↦ current.merge record
      match encodeRecord key merged with
      | .error error => (.error error, store)
      | .ok bytes =>
        (.ok (), { store with
          db := store.db.insert (recordKey key) bytes
          budgetUsedBytes := saturatingAdd (store.budgetUsedBytes - existingBytes)
            merged.approxBytes })
    else
      (.error ⟨"durable value store total byte budget exceeded"⟩,
        { store with rejectedTotal := saturatingSucc store.rejectedTotal })

def tombstone (key : Key) (partition version epoch : ℕ) :
    Except ValueStoreError Unit × DurableValueStore :=
  store.upsert key (.tombstone partition version epoch none)

def scanAll : Except ValueStoreError (List (Key × ReplicatedValueRecord)) :=
  (store.db.scan isRecordKey).mapM decodeRow

/-- The records that are readable under a map with the readers. -/
def scanOwned (reading : List String) :
    Except ValueStoreError (List (Key × ReplicatedValueRecord)) :=
  if reading.isEmpty then .ok [] else store.scanAll

def remove (key : Key) : Except ValueStoreError Unit × DurableValueStore :=
  match store.db.get (recordKey key) with
  | none => (.ok (), store)
  | some bytes =>
    let db := store.db.remove (recordKey key)
    match decodeRecord key bytes with
    | .ok record =>
      (.ok (), { store with db, budgetUsedBytes := store.budgetUsedBytes - record.approxBytes })
    | .error _ =>
      -- a row that cannot be read: count the rest again
      match scanTotalBytes db with
      | .ok budgetUsedBytes => (.ok (), { store with db, budgetUsedBytes })
      | .error error => (.error error, { store with db })

end

end DurableValueStore

/-! ### The store in memory -/

namespace InMemoryReplicatedValueStore

section

variable (store : InMemoryReplicatedValueStore)

def tombstone (key : Key) (partition version epoch : ℕ) :
    Except ValueStoreError Unit × InMemoryReplicatedValueStore :=
  store.upsert key (.tombstone partition version epoch none)

/-- The records in the order of the bytes of their keys. -/
def scanAll : List (Key × ReplicatedValueRecord) :=
  (store.records.entries.map fun entry ↦ (entry.1, entry.2)).insertionSort
    fun row other ↦ utf8 row.1 ≤ utf8 other.1

def scanOwned (reading : List String) : List (Key × ReplicatedValueRecord) :=
  if reading.isEmpty then [] else store.scanAll

def remove (key : Key) : InMemoryReplicatedValueStore :=
  { store with records := store.records.erase key }

end

def reopenFromSnapshot (maxTotalBytes : ℕ) (records : KeyMap Key ReplicatedValueRecord) :
    InMemoryReplicatedValueStore where
  records
  maxTotalBytes := max maxTotalBytes 1

end InMemoryReplicatedValueStore

open InMemoryReplicatedValueStore

/-! ### Requests -/

/-- A request to a store; `reopen` closes it and opens it again under its budget. -/
inductive StoreRequest where
  | upsert (key : Key) (record : ReplicatedValueRecord)
  | tombstone (key : Key) (partition version epoch : ℕ)
  | get (key : Key)
  | remove (key : Key)
  | scanOwned (reading : List String)
  | scanAll
  | reopen

inductive StoreReply where
  | done
  | record (found : Option ReplicatedValueRecord)
  | records (rows : List (Key × ReplicatedValueRecord))
deriving DecidableEq

def DurableValueStore.answer (store : DurableValueStore) :
    StoreRequest → Except ValueStoreError StoreReply × DurableValueStore
  | .upsert key record =>
    ((store.upsert key record).1.map fun _ ↦ .done, (store.upsert key record).2)
  | .tombstone key partition version epoch =>
    ((store.tombstone key partition version epoch).1.map fun _ ↦ .done,
      (store.tombstone key partition version epoch).2)
  | .get key => ((store.get key).map .record, store)
  | .remove key => ((store.remove key).1.map fun _ ↦ .done, (store.remove key).2)
  | .scanOwned reading => ((store.scanOwned reading).map .records, store)
  | .scanAll => (store.scanAll.map .records, store)
  | .reopen =>
    match openWithBudget store.db store.maxTotalBytes with
    | .ok reopened => (.ok .done, reopened)
    | .error error => (.error error, store)

def InMemoryReplicatedValueStore.answer (store : InMemoryReplicatedValueStore) :
    StoreRequest → Except ValueStoreError StoreReply × InMemoryReplicatedValueStore
  | .upsert key record =>
    ((store.upsert key record).1.map fun _ ↦ .done, (store.upsert key record).2)
  | .tombstone key partition version epoch =>
    ((store.tombstone key partition version epoch).1.map fun _ ↦ .done,
      (store.tombstone key partition version epoch).2)
  | .get key => (.ok (.record (store.get key)), store)
  | .remove key => (.ok .done, store.remove key)
  | .scanOwned reading => (.ok (.records (store.scanOwned reading)), store)
  | .scanAll => (.ok (.records store.scanAll), store)
  | .reopen => (.ok .done, reopenFromSnapshot store.maxTotalBytes store.records)

/-! ### Keys and rows -/

variable {key other : Key} {record : ReplicatedValueRecord}
  {rows : List (Key × ReplicatedValueRecord)}

theorem isRecordKey_recordKey (key : Key) : isRecordKey (recordKey key) = true :=
  List.isPrefixOf_iff_prefix.mpr (List.prefix_append _ _)

theorem recordKey_injective (h : recordKey key = recordKey other) : key = other :=
  utf8_injective (List.append_cancel_left h)

theorem formatKey_ne_recordKey (key : Key) : formatKey ≠ recordKey key := by
  intro h
  have hfmt : isRecordKey formatKey = false := by decide +kernel
  simp [h, isRecordKey_recordKey] at hfmt

theorem storedKeyToCacheKey_recordKey (key : Key) :
    storedKeyToCacheKey (recordKey key) = .ok key := by
  have hdrop : (recordKey key).drop recordPrefix.length = utf8 key := List.drop_left
  rw [storedKeyToCacheKey, if_pos (isRecordKey_recordKey key), hdrop, ofUtf8_utf8]

/-- The record can be written under the key and read back. -/
structure Encodable (key : Key) (record : ReplicatedValueRecord) : Prop where
  storable : record.Storable
  short : (recordPayload key record).length < 2 ^ 32

/-- What is written for the record. -/
def recordBytes (key : Key) (record : ReplicatedValueRecord) : Bytes :=
  Reader.fieldBytes (recordPayload key record)

theorem Encodable.encodeRecord (h : Encodable key record) :
    encodeRecord key record = .ok (recordBytes key record) :=
  encodeRecord_eq_ok_iff.mpr ⟨h.short, rfl⟩

theorem Encodable.decodeRecord (h : Encodable key record) :
    decodeRecord key (recordBytes key record) = .ok record :=
  decodeRecord_eq_ok_iff.mpr ⟨h.storable, h.encodeRecord⟩

/-- The row of a record. -/
def recordRow (row : Key × ReplicatedValueRecord) : Bytes × Bytes :=
  (recordKey row.1, recordBytes row.1 row.2)

theorem decodeRow_recordRow (h : Encodable key record) :
    decodeRow (recordRow (key, record)) = .ok (key, record) := by
  unfold decodeRow recordRow
  rw [storedKeyToCacheKey_recordKey, ok_bind, h.decodeRecord, ok_bind]

theorem mapM_decodeRow (h : ∀ row ∈ rows, Encodable row.1 row.2) :
    (rows.map recordRow).mapM decodeRow = .ok rows := by
  induction rows with
  | nil => rfl
  | cons _ _ ih =>
    obtain ⟨hrow, hrows⟩ := List.forall_mem_cons.mp h
    rw [List.map_cons, List.mapM_cons, decodeRow_recordRow hrow, ok_bind, ih hrows, ok_bind]
    rfl

/-- Rows whose bytes stay below 2⁶⁴ are summed exactly. -/
theorem sumRows_recordRow {total : ℕ} (h : ∀ row ∈ rows, Encodable row.1 row.2)
    (hword : total + (rows.map fun row ↦ row.2.approxBytes).sum ≤ maxWord) :
    sumRows total (rows.map recordRow) =
      .ok (total + (rows.map fun row ↦ row.2.approxBytes).sum) := by
  induction rows generalizing total with
  | nil => rfl
  | cons row _ ih =>
    obtain ⟨hrow, hrows⟩ := List.forall_mem_cons.mp h
    rw [List.map_cons, List.sum_cons, ← Nat.add_assoc] at hword
    have hadd : saturatingAdd total row.2.approxBytes = total + row.2.approxBytes :=
      Nat.min_eq_left ((Nat.le_add_right _ _).trans hword)
    rw [List.map_cons, sumRows, decodeRow_recordRow hrow, ok_bind, hadd, ih hrows hword,
      List.map_cons, List.sum_cons, Nat.add_assoc]

/-! ### The records in memory in order -/

variable {memory : InMemoryReplicatedValueStore} {durable : DurableValueStore} {count : ℕ}
  {request : StoreRequest}

theorem mem_scanAll_iff {row : Key × ReplicatedValueRecord} :
    row ∈ memory.scanAll ↔ memory.records.lookup row.1 = some row.2 := by
  rw [scanAll, List.mem_insertionSort, ← mem_def, mem_lookup_iff, List.mem_map]
  constructor
  · rintro ⟨entry, hentry, rfl⟩
    exact hentry
  · intro hentry
    exact ⟨_, hentry, rfl⟩

theorem sum_scanAll : (memory.scanAll.map fun row ↦ row.2.approxBytes).sum = memory.totalBytes := by
  have hperm := (List.perm_insertionSort (fun row other : Key × ReplicatedValueRecord ↦
    utf8 row.1 ≤ utf8 other.1) (memory.records.entries.map fun entry ↦ (entry.1, entry.2))).map
      fun row ↦ row.2.approxBytes
  unfold scanAll totalBytes KeyMap.total
  rw [hperm.sum_eq, List.map_map]
  rfl

theorem sorted_scanAll (memory : InMemoryReplicatedValueStore) :
    memory.scanAll.Pairwise fun row other ↦ utf8 row.1 < utf8 other.1 := by
  let order := fun row other : Key × ReplicatedValueRecord ↦ utf8 row.1 ≤ utf8 other.1
  have htotal : Std.Total order := ⟨fun row other ↦ le_total (utf8 row.1) (utf8 other.1)⟩
  have htrans : IsTrans _ order := ⟨fun row other third ↦ le_trans⟩
  have hsort : memory.scanAll.Pairwise order := List.pairwise_insertionSort ..
  -- no key stands twice in the map, so the order is strict
  have hkeys : (memory.scanAll.map Prod.fst).Nodup := by
    have hperm := (List.perm_insertionSort order
      (memory.records.entries.map fun entry ↦ (entry.1, entry.2))).map Prod.fst
    refine hperm.nodup_iff.mpr ?_
    rw [List.map_map]
    exact memory.records.nodupKeys
  refine (hsort.and (List.pairwise_map.mp hkeys)).imp fun hrow ↦ ?_
  exact lt_of_le_of_ne hrow.1 fun hutf8 ↦ hrow.2 (utf8_injective hutf8)

/-! ### The two stores hold the same -/

/-- The tree holds exactly the records of the map, each as it is written, under the mark of the
format and the same budget. -/
structure Represents (durable : DurableValueStore) (memory : InMemoryReplicatedValueStore) :
    Prop where
  held : ∀ key, durable.db.get (recordKey key) =
    (memory.records.lookup key).map (recordBytes key)
  named : ∀ stored bytes, isRecordKey stored = true → durable.db.get stored = some bytes →
    ∃ key, stored = recordKey key
  encodable : ∀ key, ∀ record ∈ memory.records.lookup key, Encodable key record
  format : durable.db.get formatKey = some (littleEndian 4 durableValueFormatVersion)
  budget : durable.maxTotalBytes = memory.maxTotalBytes
  rejected : durable.rejectedTotal = memory.rejectedTotal

namespace Represents

section

variable (h : Represents durable memory)
include h

theorem encodable_scanAll : ∀ row ∈ memory.scanAll, Encodable row.1 row.2 := fun row hrow ↦
  h.encodable row.1 row.2 (mem_scanAll_iff.mp hrow)

theorem get (key : Key) : durable.get key = .ok (memory.get key) := by
  unfold DurableValueStore.get InMemoryReplicatedValueStore.get
  rw [h.held]
  cases hlook : memory.records.lookup key with
  | none => rfl
  | some record =>
    rw [map_some]
    dsimp only
    rw [(h.encodable key record hlook).decodeRecord]
    rfl

/-- The rows of the tree are those of the records, in their order. -/
theorem scan_eq : durable.db.scan isRecordKey = memory.scanAll.map recordRow := by
  refine scan_eq_of_mem_iff _ ?_ fun row ↦ ?_
  · refine List.pairwise_map.mpr ((sorted_scanAll ..).imp fun hlt ↦ ?_)
    exact List.append_left_lt hlt
  · rw [List.mem_map]
    constructor
    · rintro ⟨⟨key, record⟩, hrow, rfl⟩
      refine ⟨isRecordKey_recordKey key, ?_⟩
      rw [recordRow, h.held, mem_scanAll_iff.mp hrow]
      rfl
    · rintro ⟨hkey, hget⟩
      obtain ⟨key, hsto⟩ := h.named row.1 row.2 hkey hget
      rw [hsto, h.held] at hget
      obtain ⟨record, hlook, hbytes⟩ := map_eq_some_iff.mp hget
      exact ⟨(key, record), mem_scanAll_iff.mpr hlook, Prod.ext hsto.symm hbytes⟩

theorem scanAll : durable.scanAll = .ok memory.scanAll := by
  rw [DurableValueStore.scanAll, h.scan_eq, mapM_decodeRow h.encodable_scanAll]

theorem scanTotalBytes (hword : memory.totalBytes ≤ maxWord) :
    scanTotalBytes durable.db = .ok memory.totalBytes := by
  unfold Grid.scanTotalBytes
  rw [← sum_scanAll] at hword
  rw [h.scan_eq, sumRows_recordRow h.encodable_scanAll (by rwa [Nat.zero_add]), Nat.zero_add,
    sum_scanAll]

/-- Writing a record to both. -/
theorem insert (hrec : Encodable key record) (used : ℕ) : Represents { durable with
        db := durable.db.insert (recordKey key) (recordBytes key record)
        budgetUsedBytes := used }
      { memory with records := memory.records.insert key record } where
  held other := by
    by_cases hkey : other = key
    · rw [hkey, get_insert_self, lookup_insert, map_some]
    · rw [get_insert_of_ne _ _ fun hsame ↦ hkey (recordKey_injective hsame),
        lookup_insert_ne hkey, h.held]
  named stored bytes hsto hget := by
    by_cases hkey : stored = recordKey key
    · exact ⟨key, hkey⟩
    · rw [get_insert_of_ne _ _ hkey] at hget
      exact h.named stored bytes hsto hget
  encodable other found hfound := by
    by_cases hkey : other = key
    · rw [hkey, lookup_insert] at hfound
      cases hfound
      rwa [hkey]
    · rw [lookup_insert_ne hkey] at hfound
      exact h.encodable other found hfound
  format := by rw [get_insert_of_ne _ _ (formatKey_ne_recordKey key), h.format]
  __ := h

/-- Removing a key from both. -/
theorem erase (key : Key) (used : ℕ) :
    Represents { durable with db := durable.db.remove (recordKey key), budgetUsedBytes := used }
      (memory.remove key) where
  held other := by
    rw [InMemoryReplicatedValueStore.remove, get_remove]
    by_cases hkey : other = key
    · rw [if_pos (congrArg recordKey hkey), hkey, lookup_erase, map_none]
    · rw [if_neg fun hsame ↦ hkey (recordKey_injective hsame), lookup_erase_ne hkey, h.held]
  named stored bytes hsto hget := by
    rw [get_remove] at hget
    split_ifs at hget
    exact h.named stored bytes hsto hget
  encodable other found hfound := h.encodable other found (KeyMap.of_lookup_erase hfound).2
  format := by
    rw [get_remove, if_neg (formatKey_ne_recordKey key), h.format]
  __ := h

end

end Represents

/-! ### Writes -/

section

variable (memory : InMemoryReplicatedValueStore)

/-- The bytes charged for the record under the key. -/
def existingBytes (key : Key) : ℕ :=
  ((memory.get key).map approxBytes).getD 0

/-- What a write of the record leaves under the key. -/
def mergedRecord (key : Key) (record : ReplicatedValueRecord) : ReplicatedValueRecord :=
  (memory.get key).elim record fun current ↦ current.merge record

theorem mergedRecord_cases (key : Key) (record : ReplicatedValueRecord) :
    mergedRecord memory key record = record ∨
      ∃ current, memory.get key = some current ∧ mergedRecord memory key record = current := by
  unfold mergedRecord
  cases memory.get key with
  | none => exact .inl rfl
  | some current =>
    rcases selectsBy_merge.either current record with hcur | hrec
    · exact .inr ⟨current, rfl, hcur⟩
    · exact .inl hrec

end

theorem Represents.encodable_mergedRecord (h : Represents durable memory)
    (hrec : Encodable key record) : Encodable key (mergedRecord memory key record) := by
  rcases mergedRecord_cases memory key record with heq | ⟨current, hget, heq⟩
  · rwa [heq]
  · rw [heq]
    exact h.encodable key current hget

/-- A write to the durable store, in terms of what the store in memory holds. -/
theorem Represents.upsert_eq (h : Represents durable memory) (hrec : Encodable key record) :
    durable.upsert key record =
      if durable.wouldFit (existingBytes memory key) record then
        (.ok (), { durable with
          db := durable.db.insert (recordKey key) (recordBytes key (mergedRecord memory key record))
          budgetUsedBytes := saturatingAdd (durable.budgetUsedBytes - existingBytes memory key)
            (mergedRecord memory key record).approxBytes })
      else
        (.error ⟨"durable value store total byte budget exceeded"⟩,
          { durable with rejectedTotal := saturatingSucc durable.rejectedTotal }) := by
  rw [DurableValueStore.upsert, h.get]
  change (if durable.wouldFit (existingBytes memory key) record then
    match encodeRecord key (mergedRecord memory key record) with
    | .error error => _
    | .ok bytes => _ else _) = _
  rw [(h.encodable_mergedRecord hrec).encodeRecord]
  rfl

/-- The bytes beside the key. -/
theorem totalBytes_eq (memory : InMemoryReplicatedValueStore) (key : Key) :
    memory.totalBytes =
      existingBytes memory key + KeyMap.total approxBytes (memory.records.erase key) :=
  KeyMap.total_eq_add_erase ..

/-- The durable store counts the bytes of the records, within a budget that is a 64-bit word. -/
structure Refines (durable : DurableValueStore) (memory : InMemoryReplicatedValueStore) : Prop
    extends Represents durable memory where
  used : durable.budgetUsedBytes = memory.totalBytes
  within : memory.totalBytes ≤ memory.maxTotalBytes
  positive : 1 ≤ memory.maxTotalBytes
  word : memory.maxTotalBytes ≤ maxWord

/-- The bytes after the write of the record are a 64-bit word, or the budget is smaller than all of
them. -/
def WriteCountable (memory : InMemoryReplicatedValueStore) (key : Key)
    (record : ReplicatedValueRecord) :
    Prop :=
  memory.maxTotalBytes < maxWord ∨
    memory.totalBytes - existingBytes memory key + record.approxBytes ≤ maxWord

section

variable (h : Refines durable memory)
include h

theorem Refines.wouldFit_eq (key : Key) (record : ReplicatedValueRecord) :
    durable.wouldFit (existingBytes memory key) record = memory.wouldFit key record := by
  unfold DurableValueStore.wouldFit wouldFit
  rw [h.used, h.budget]
  rfl

/-- A write that fits is counted exactly, whichever record it leaves. -/
theorem Refines.merged_le (hcount : WriteCountable memory key record)
    (hfit : memory.wouldFit key record = true) :
    memory.totalBytes - existingBytes memory key + (mergedRecord memory key record).approxBytes ≤
      memory.maxTotalBytes := by
  have hsplit := totalBytes_eq memory key
  have hwithin := h.within
  rcases mergedRecord_cases memory key record with heq | ⟨current, hget, heq⟩
  · have hle : saturatingAdd (memory.totalBytes - existingBytes memory key) record.approxBytes ≤
        memory.maxTotalBytes := of_decide_eq_true hfit
    rw [heq]
    unfold saturatingAdd at hle
    rcases hcount with hbud | hword <;> omega
  · have hold : existingBytes memory key = current.approxBytes := by
      rw [existingBytes, hget]
      rfl
    rw [heq, ← hold]
    omega

theorem Refines.upsert (hrec : Encodable key record) (hcount : WriteCountable memory key record) :
    (durable.upsert key record).1 = (memory.upsert key record).1.mapError
        (fun _ ↦ ⟨"durable value store total byte budget exceeded"⟩) ∧
      Refines (durable.upsert key record).2 (memory.upsert key record).2 := by
  rw [h.upsert_eq hrec, h.wouldFit_eq]
  unfold InMemoryReplicatedValueStore.upsert
  split_ifs with hfit
  · have hle := h.merged_le hcount hfit
    have hsplit := totalBytes_eq memory key
    have htotal : totalBytes { memory with
          records := memory.records.insert key (mergedRecord memory key record) } =
        memory.totalBytes - existingBytes memory key +
          (mergedRecord memory key record).approxBytes := by
      rw [hsplit, Nat.add_sub_cancel_left, Nat.add_comm]
      exact KeyMap.total_insert _ _ _ _
    refine ⟨rfl, h.insert (h.encodable_mergedRecord hrec) _, ?_, ?_, h.positive, h.word⟩
    · rw [h.used]
      exact (Nat.min_eq_left (hle.trans h.word)).trans htotal.symm
    · exact htotal.trans_le hle
  · exact ⟨rfl, { h with rejected := congrArg saturatingSucc h.rejected }⟩

/-! ### Every request -/

theorem Refines.remove (key : Key) :
    (durable.remove key).1 = .ok () ∧ Refines (durable.remove key).2 (memory.remove key) := by
  have hsplit := totalBytes_eq memory key
  have htotal : (memory.remove key).totalBytes = memory.totalBytes - existingBytes memory key := by
    rw [hsplit, Nat.add_sub_cancel_left]
    rfl
  have hwithin : (memory.remove key).totalBytes ≤ (memory.remove key).maxTotalBytes :=
    htotal.trans_le ((Nat.sub_le _ _).trans h.within)
  rw [DurableValueStore.remove, h.held]
  cases hlook : memory.records.lookup key with
  | none =>
    have hsame : memory.remove key = memory := by
      rw [InMemoryReplicatedValueStore.remove, KeyMap.erase_of_lookup_eq_none hlook]
    rw [hsame]
    exact ⟨rfl, h⟩
  | some record =>
    rw [map_some]
    dsimp only
    rw [(h.encodable key record hlook).decodeRecord]
    refine ⟨rfl, h.erase key _, ?_, hwithin, h.positive, h.word⟩
    rw [htotal, h.used, existingBytes, InMemoryReplicatedValueStore.get, hlook]
    rfl

/-- Opening the tree again counts the same bytes. -/
theorem Refines.openWithBudget : DurableValueStore.openWithBudget durable.db durable.maxTotalBytes =
      .ok { durable with rejectedTotal := 0 } := by
  have hfmt : validateOrInitializeFormat durable.db = .ok durable.db := by
    rw [validateOrInitializeFormat, h.format]
    rfl
  rw [DurableValueStore.openWithBudget, hfmt, ok_bind, h.scanTotalBytes (h.within.trans h.word),
    ok_bind, ← h.used, h.budget, Nat.max_eq_left h.positive, ← h.budget]

end

/-- A write of the request. -/
def StoreRequest.written : StoreRequest → Option (Key × ReplicatedValueRecord)
  | .upsert key record => some (key, record)
  | .tombstone key partition version epoch => some (key, .tombstone partition version epoch none)
  | _ => none

/-- What the request writes can be written and read back. -/
def StoreRequest.Encodable (request : StoreRequest) : Prop :=
  ∀ row ∈ request.written, Grid.Encodable row.1 row.2

/-- What the request writes keeps the bytes below 2⁶⁴, or the budget does. -/
def Countable (memory : InMemoryReplicatedValueStore) (request : StoreRequest) : Prop :=
  ∀ row ∈ request.written, WriteCountable memory row.1 row.2

/-- The reply of the durable store for a reply of the store in memory: a refusal names the store. -/
def asDurable (reply : Except ValueStoreError StoreReply) : Except ValueStoreError StoreReply :=
  reply.mapError fun _ ↦ ⟨"durable value store total byte budget exceeded"⟩

/-- One request. -/
theorem Refines.answer (h : Refines durable memory)
    (henc : request.Encodable) (hcount : Countable memory request) :
    (durable.answer request).1 = asDurable (memory.answer request).1 ∧
      Refines (durable.answer request).2 (memory.answer request).2 := by
  have hups (key : Key) (record : ReplicatedValueRecord)
    (hrow : request.written = some (key, record)) :
      (durable.upsert key record).1.map (fun _ ↦ StoreReply.done) =
          asDurable ((memory.upsert key record).1.map fun _ ↦ .done) ∧
        Refines (durable.upsert key record).2 (memory.upsert key record).2 := by
    obtain ⟨hreply, hnext⟩ := h.upsert (henc (key, record) hrow) (hcount (key, record) hrow)
    refine ⟨?_, hnext⟩
    rw [hreply]
    cases (memory.upsert key record).1 <;> rfl
  cases request with
  | upsert | tombstone => exact hups _ _ rfl
  | get key =>
    refine ⟨?_, h⟩
    change (durable.get key).map _ = _
    rw [h.get]
    rfl
  | remove key =>
    obtain ⟨hreply, hnext⟩ := h.remove key
    refine ⟨?_, hnext⟩
    change (durable.remove key).1.map _ = _
    rw [hreply]
    rfl
  | scanOwned reading =>
    refine ⟨?_, h⟩
    change (durable.scanOwned reading).map _ = asDurable (.ok (.records (memory.scanOwned reading)))
    unfold DurableValueStore.scanOwned scanOwned
    rw [h.scanAll]
    split_ifs <;> rfl
  | scanAll =>
    refine ⟨?_, h⟩
    change durable.scanAll.map _ = _
    rw [h.scanAll]
    rfl
  | reopen =>
    have hmemory :
      InMemoryReplicatedValueStore.reopenFromSnapshot memory.maxTotalBytes memory.records =
        { memory with rejectedTotal := 0 } := by
      rw [InMemoryReplicatedValueStore.reopenFromSnapshot, Nat.max_eq_left h.positive]
    unfold DurableValueStore.answer InMemoryReplicatedValueStore.answer
    rw [h.openWithBudget, hmemory]
    exact ⟨rfl, { h with rejected := rfl }⟩

/-- The budget stays the one the store was opened with. -/
theorem maxTotalBytes_answer (hpos : 1 ≤ memory.maxTotalBytes) (request : StoreRequest) :
    (memory.answer request).2.maxTotalBytes = memory.maxTotalBytes := by
  have hups (key : Key) (record : ReplicatedValueRecord) :
      (memory.upsert key record).2.maxTotalBytes = memory.maxTotalBytes := by
    unfold InMemoryReplicatedValueStore.upsert
    split_ifs <;> rfl
  cases request with
  | upsert key record => exact hups key record
  | tombstone key => exact hups key _
  | reopen => exact Nat.max_eq_left hpos
  | get | remove | scanOwned | scanAll => rfl

theorem openWithBudget_max (db : OrderedMap Bytes Bytes) (budget : ℕ) :
    DurableValueStore.openWithBudget db (max budget 1) =
      DurableValueStore.openWithBudget db budget := by
  unfold DurableValueStore.openWithBudget
  rw [Nat.max_assoc, Nat.max_self]

/-- A store opened on an empty tree. -/
theorem refines_openWithBudget {budget : ℕ} (hbud : budget ≤ maxWord) :
    ∃ durable, DurableValueStore.openWithBudget ∅ budget = .ok durable ∧
      Refines durable (withBudget budget) := by
  let db : OrderedMap Bytes Bytes :=
    insert ∅ formatKey (littleEndian 4 durableValueFormatVersion)
  have hrepr : Represents { db, maxTotalBytes := max budget 1, budgetUsedBytes := 0 }
      (withBudget budget) :=
    { held := fun key ↦ get_insert_of_ne ∅ _ (formatKey_ne_recordKey key).symm
      named := by
        intro stored bytes hsto hget
        have hne : stored ≠ formatKey := by
          rintro rfl
          exact absurd hsto (by decide +kernel)
        rw [get_insert_of_ne ∅ _ hne] at hget
        cases hget
      encodable := fun key record hrec ↦ by cases hrec
      format := get_insert_self ∅ _ _
      budget := rfl
      rejected := rfl }
  refine ⟨_, ?_, hrepr, rfl, Nat.zero_le _, le_max_right _ _, max_le hbud (by decide)⟩
  have hscan : scanTotalBytes db = .ok 0 := hrepr.scanTotalBytes (Nat.zero_le _)
  have hfmt : validateOrInitializeFormat ∅ = .ok db := rfl
  rw [DurableValueStore.openWithBudget, hfmt, ok_bind, hscan, ok_bind]

/-- Assumes: a budget that is a 64-bit word, and requests whose records can be written and keep the
bytes below 2⁶⁴ unless the budget does. The durable store opened on an empty tree gives the replies
of the store in memory, with its own text for a refusal. Both list the same records in the same
order; the counter is the sum of their bytes and within the budget; and opening the tree again
changes neither. -/
theorem durable_refines {budget : ℕ} (hbudget : budget ≤ maxWord) {requests : List StoreRequest}
    (hencodable : ∀ request ∈ requests, request.Encodable)
    (hcount : Along (fun memory request ↦ some (memory.answer request).2) Countable
      (withBudget budget) requests) :
    ∃ opened, DurableValueStore.openWithBudget ∅ budget = .ok opened ∧
      let durable := trace DurableValueStore.answer opened requests
      let memory := trace InMemoryReplicatedValueStore.answer (withBudget budget) requests
      durable.1 = memory.1.map asDurable ∧ durable.2.scanAll = .ok memory.2.scanAll ∧
        durable.2.rejectedTotal = memory.2.rejectedTotal ∧
        durable.2.budgetUsedBytes = (memory.2.scanAll.map fun row ↦ row.2.approxBytes).sum ∧
        durable.2.budgetUsedBytes ≤ max budget 1 ∧
        ∃ reopened, DurableValueStore.openWithBudget durable.2.db budget = .ok reopened ∧
          reopened.scanAll = durable.2.scanAll ∧
          reopened.budgetUsedBytes = durable.2.budgetUsedBytes := by
  obtain ⟨opened, hopen, hrefines⟩ := refines_openWithBudget hbudget
  have halong := (along_of_forall_mem (C := fun _ request ↦ request.Encodable)
    (fun request hreq _ ↦ hencodable request hreq) _).and hcount
  have hstep (s : DurableValueStore) (t : InMemoryReplicatedValueStore) (request : StoreRequest)
      (h : Refines s t ∧ t.maxTotalBytes = max budget 1)
      (hreq : request.Encodable ∧ Countable t request) :
      (s.answer request).1 = asDurable (t.answer request).1 ∧
        Refines (s.answer request).2 (t.answer request).2 ∧
        (t.answer request).2.maxTotalBytes = max budget 1 := by
    obtain ⟨hreply, hnext⟩ := h.1.answer hreq.1 hreq.2
    exact ⟨hreply, hnext, (maxTotalBytes_answer h.1.positive ..).trans h.2⟩
  obtain ⟨hreplies, hfinal, hmax⟩ := trace_simulation hstep ⟨hrefines, rfl⟩ halong
  have hreopened := hfinal.openWithBudget
  rw [hfinal.budget, hmax, openWithBudget_max] at hreopened
  refine ⟨opened, hopen, hreplies, hfinal.scanAll, hfinal.rejected,
    hfinal.used.trans sum_scanAll.symm, ?_, _, hreopened, rfl, rfl⟩
  rw [hfinal.used, ← hmax]
  exact hfinal.within

instance (memory : InMemoryReplicatedValueStore) : DecidablePred (Countable memory) := fun request ↦
  inferInstanceAs (Decidable (∀ row ∈ request.written, _ ∨ _))

/-- Two records, one that does not fit beside them, a tombstone, and the store closed and opened. -/
def fewRequests : List StoreRequest :=
  [.upsert "b" (.value 0 1 1 [1]), .upsert "a" (.value 0 1 1 [2, 3]),
    .upsert "c" (.value 0 1 1 [4]), .tombstone "b" 0 2 1, .reopen, .remove "a", .scanAll]

theorem encodable_fewRequests : ∀ request ∈ fewRequests, request.Encodable := by
  have hword : 1 < 2 ^ 64 ∧ 2 < 2 ^ 64 := by decide
  have hpart : 0 < 2 ^ 32 := by decide
  have hvalue (key : Key) (sealedBytes : SealedBytes) (h : (recordPayload key
      (.value 0 1 1 sealedBytes)).length < 2 ^ 32) : Encodable key (.value 0 1 1 sealedBytes) :=
    ⟨⟨hpart, hword.1, hword.1, hword.1⟩, h⟩
  simp only [fewRequests, List.forall_mem_cons, StoreRequest.Encodable, StoreRequest.written,
    mem_def, Option.some.injEq, forall_eq', reduceCtorEq, false_imp_iff, implies_true,
    List.not_mem_nil, and_true]
  refine ⟨hvalue _ _ (by decide +kernel), hvalue _ _ (by decide +kernel),
    hvalue _ _ (by decide +kernel), ⟨⟨hpart, hword.2, hword.1, hword.2, ?_⟩, by decide +kernel⟩⟩
  rintro epoch ⟨⟩

theorem durable_refines_fewRequests :
    ∃ opened, DurableValueStore.openWithBudget ∅ 3 = .ok opened ∧
      (trace DurableValueStore.answer opened fewRequests).1 =
        [.ok .done, .ok .done, .error ⟨"durable value store total byte budget exceeded"⟩, .ok .done,
          .ok .done, .ok .done, .ok (.records [("b", .tombstone 0 2 1 none)])] ∧
      (trace DurableValueStore.answer opened fewRequests).2.budgetUsedBytes = 1 := by
  have hbud : 3 ≤ maxWord := by decide
  obtain ⟨opened, hopen, hreplies, -, -, hused, -⟩ :=
    durable_refines hbud encodable_fewRequests (by decide +kernel)
  exact ⟨opened, hopen, hreplies.trans (by decide +kernel), hused.trans (by decide +kernel)⟩

/-! ### Under the largest budget -/

/-- As many keys as asked for, each with the same record. -/
def fill (count : ℕ) (record : ReplicatedValueRecord) : List StoreRequest :=
  (List.range count).map fun i ↦ .upsert (decimal i) record

theorem fill_succ (count : ℕ) (record : ReplicatedValueRecord) :
    fill (count + 1) record = fill count record ++ [.upsert (decimal count) record] := by
  rw [fill, List.range_succ, List.map_append]
  rfl

theorem encodable_of_mem_fill (hreq : request ∈ fill count record)
    (hrec : ∀ i < count, Encodable (decimal i) record) : request.Encodable := by
  obtain ⟨i, hi, rfl⟩ := List.mem_map.mp hreq
  intro row hrow
  cases hrow
  exact hrec i (List.mem_range.mp hi)

/-- Filling the stores under the largest budget: every record is taken, the counter stays a 64-bit
word. -/
structure Filled (durable : DurableValueStore) (memory : InMemoryReplicatedValueStore)
    (count bytes : ℕ) :
    Prop extends Represents durable memory where
  largest : memory.maxTotalBytes = maxWord
  counter : durable.budgetUsedBytes ≤ maxWord
  total : memory.totalBytes = count * bytes
  fresh : ∀ i, count ≤ i → memory.get (decimal i) = none

theorem Filled.upsert (h : Filled durable memory count record.approxBytes)
    (hrec : Encodable (decimal count) record) :
    Filled (durable.upsert (decimal count) record).2 (memory.upsert (decimal count) record).2
      (count + 1) record.approxBytes := by
  have hget : memory.get (decimal count) = none := h.fresh count le_rfl
  have hmerge : mergedRecord memory (decimal count) record = record := by
    rw [mergedRecord, hget]
    rfl
  have hold : existingBytes memory (decimal count) = 0 := by
    rw [existingBytes, hget]
    rfl
  -- a sum that stops at the largest word is never above it
  have hfit (used : ℕ) : saturatingAdd used record.approxBytes ≤ maxWord := Nat.min_le_right _ _
  have hdurable : durable.wouldFit (existingBytes memory (decimal count)) record = true := by
    refine decide_eq_true ?_
    rw [h.budget, h.largest]
    exact hfit _
  have hmemory : memory.wouldFit (decimal count) record = true := by
    refine decide_eq_true ?_
    rw [h.largest]
    exact hfit _
  have hups : (memory.upsert (decimal count) record).2 =
      { memory with records := memory.records.insert (decimal count) record } := by
    rw [InMemoryReplicatedValueStore.upsert, if_pos hmemory]
    change { memory with
      records := memory.records.insert (decimal count) (mergedRecord memory _ record) } = _
    rw [hmerge]
  rw [h.upsert_eq hrec, if_pos hdurable, hmerge, hups]
  refine ⟨h.insert hrec _, h.largest, hfit _, ?_, ?_⟩
  · have hsplit := totalBytes_eq memory (decimal count)
    rw [hold, h.total, Nat.zero_add] at hsplit
    rw [Nat.succ_mul, hsplit, Nat.add_comm]
    exact KeyMap.total_insert _ _ _ _
  · intro i hi
    have hne : decimal i ≠ decimal count := fun heq ↦ Nat.ne_of_gt hi (decimal_injective heq)
    change (memory.records.insert (decimal count) record).lookup (decimal i) = none
    rw [lookup_insert_ne hne]
    exact h.fresh i (Nat.le_of_succ_le hi)

theorem filled_fill {opened : DurableValueStore} (hopen : Refines opened (withBudget maxWord))
    (hrec : ∀ i < count, Encodable (decimal i) record) :
    Filled (trace DurableValueStore.answer opened (fill count record)).2
      (trace InMemoryReplicatedValueStore.answer (.withBudget maxWord) (fill count record)).2 count
      record.approxBytes := by
  induction count with
  | zero =>
    refine ⟨hopen.toRepresents, rfl, ?_, ?_, fun _ _ ↦ rfl⟩
    · exact hopen.used.trans_le (hopen.within.trans hopen.word)
    · exact (Nat.zero_mul _).symm
  | succ count ih =>
    rw [fill_succ, trace_concat, trace_concat]
    exact (ih fun i hi ↦ hrec i (hi.trans (Nat.lt_succ_self count))).upsert
      (hrec count (Nat.lt_succ_self count))

theorem length_utf8_decimal_le {n digits : ℕ} (hpos : 0 < digits) (h : n < 10 ^ digits) :
    (utf8 (decimal n)).length ≤ 4 * digits := by
  have hchars := length_utf8_ofList_le (Nat.toDigits 10 n)
  have hdigits := Nat.toDigits_length 10 n digits hpos h
  exact hchars.trans (Nat.mul_le_mul_left 4 hdigits)

theorem encodable_fill {i : ℕ} (hi : i < 2 ^ 33) :
    Encodable (decimal i) (.value 0 1 1 (List.replicate (2 ^ 31) 0)) := by
  have hword : 1 < 2 ^ 64 := by decide
  have hpart : 0 < 2 ^ 32 := by decide
  have hten : (2 : ℕ) ^ 33 ≤ 10 ^ 10 := by decide
  have hkey := length_utf8_decimal_le (by decide : 0 < 10) (hi.trans_le hten)
  have hmagic : recordMagic.length = 4 := by decide
  refine ⟨⟨hpart, hword, hword, hword⟩, ?_⟩
  simp only [recordPayload, ReplicatedValueRecord.value, bytes, headerBytes,
    checksumBytes, ReplicatedSlot.bytes, Reader.fieldBytes, List.length_append, length_littleEndian,
    List.length_replicate, hmagic]
  omega

/-- The two stores do not refuse with the same text, and under the largest budget the counter is not
the sum of the bytes. -/
theorem durable_differs :
    (∃ opened, DurableValueStore.openWithBudget ∅ 1 = .ok opened ∧
        (opened.answer (.upsert "a" (.value 0 1 1 [1, 2]))).1 =
          .error ⟨"durable value store total byte budget exceeded"⟩ ∧
        ((withBudget 1).answer
            (.upsert "a" (.value 0 1 1 [1, 2]))).1 =
          .error ⟨"replicated value store total byte budget exceeded"⟩) ∧
      ∃ requests, (∀ request ∈ requests, request.Encodable) ∧
        ∃ opened, DurableValueStore.openWithBudget ∅ maxWord = .ok opened ∧
          ∃ rows, (trace DurableValueStore.answer opened requests).2.scanAll = .ok rows ∧
            (trace DurableValueStore.answer opened requests).2.budgetUsedBytes <
              (rows.map fun row ↦ row.2.approxBytes).sum := by
  constructor
  · exact ⟨_, rfl, by decide +kernel, by decide +kernel⟩
  · -- the counter stays behind the bytes of the records once they pass 2⁶⁴
    obtain ⟨opened, hopen, hrefines⟩ := refines_openWithBudget (le_refl ..)
    have hrec (i : ℕ) (hi : i < 2 ^ 33) := encodable_fill hi
    have hfilled := filled_fill hrefines hrec
    have hbytes : (value 0 1 1 (List.replicate (2 ^ 31) 0)).approxBytes = 2 ^ 31 := by
      change max (List.replicate (2 ^ 31) (0 : UInt8)).length 1 = 2 ^ 31
      rw [List.length_replicate]
      decide
    have hpast : maxWord < 2 ^ 33 * 2 ^ 31 := by decide
    refine ⟨_, fun _ hreq ↦ encodable_of_mem_fill hreq hrec, opened, hopen, _, hfilled.scanAll, ?_⟩
    rw [sum_scanAll, hfilled.total, hbytes]
    exact hfilled.counter.trans_lt hpast

end HydraCache.Grid
