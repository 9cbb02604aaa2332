import HydraCache.Lib.KeyMap
import HydraCache.Lib.Selection
import HydraCache.Lib.Word
import Mathlib.Data.Prod.Lex

/-!
# Replicated value records

A replicated value record is a live value or a tombstone, with a version and the epoch of the
authority that produced it. Two records of one key merge to the one of higher (version, epoch), and
a tombstone wins a tie. A replica store merges every record it is given into the one it holds, and
refuses those that do not fit its byte budget.

Over all pairs of records the merge selects by `rank`, the (version, epoch) and then the kind, so it
is associative and idempotent. On two records of one rank that differ it is not commutative: of two
tombstones the first stays, of two live values the second. `upsert_converges_iff` says when the
order of arrival does not matter: exactly when the records of the highest rank agree.
-/

set_option autoImplicit false

namespace HydraCache.Grid

open Lib

/-! ### Keys and partitions -/

abbrev Key := String

/-- The FNV-1a hash of the bytes of the key. -/
def stableKeyHash (key : Key) : UInt64 :=
  key.toUTF8.data.toList.foldl (fun hash byte ↦ (hash ^^^ byte.toUInt64) * 0x100000001b3)
    0xcbf29ce484222325

def partitionForKey (key : Key) (partitionCount : ℕ) : ℕ :=
  (stableKeyHash key).toNat % max partitionCount 1

/-! ### Records -/

abbrev SealedBytes := List UInt8

/-- A live value, or the mark of its deletion. -/
inductive ReplicatedSlot where
  | value (value : SealedBytes) (version : ℕ)
  | tombstone (version : ℕ) (gcEligibleAfter : Option ℕ)
deriving DecidableEq

def ReplicatedSlot.isTombstone : ReplicatedSlot → Bool
  | .value .. => false
  | .tombstone .. => true

structure ReplicatedValueRecord where
  partition : ℕ
  version : ℕ
  epoch : ℕ
  state : ReplicatedSlot
deriving DecidableEq

namespace ReplicatedValueRecord

/-- A live value record. -/
def value (partition version epoch : ℕ) (sealedBytes : SealedBytes) : ReplicatedValueRecord where
  partition
  version
  epoch
  state := .value sealedBytes version

/-- A tombstone record. -/
def tombstone (partition version epoch : ℕ) (gcEligibleAfter : Option ℕ) :
    ReplicatedValueRecord where
  partition
  version
  epoch
  state := .tombstone version gcEligibleAfter

section

variable (record : ReplicatedValueRecord)

def isTombstone : Bool := record.state.isTombstone

/-- The bytes charged against the budget of a store. -/
def approxBytes : ℕ :=
  match record.state with
  | .value value _ => max value.length 1
  | .tombstone .. => 1

/-- The (version, epoch) of the record. -/
def order : ℕ ×ₗ ℕ := toLex (record.version, record.epoch)

/-- The higher (version, epoch) wins, and a tombstone wins a tie. -/
def merge (self other : ReplicatedValueRecord) : ReplicatedValueRecord :=
  match compare self.order other.order with
  | .gt => self
  | .lt => other
  | .eq => if self.isTombstone then self else other

/-! ### The merge -/

/-- What the merge selects by: the order, and then a tombstone before a live value. -/
def rank : (ℕ ×ₗ ℕ) ×ₗ Bool :=
  toLex (record.order, record.isTombstone)

end

variable {a b : ReplicatedValueRecord}

theorem merge_of_lt (h : a.order < b.order) : a.merge b = b := by
  rw [merge, compare_lt_iff_lt.mpr h]

theorem merge_of_gt (h : b.order < a.order) : a.merge b = a := by
  rw [merge, compare_gt_iff_gt.mpr h]

theorem merge_of_eq (h : a.order = b.order) : a.merge b = if a.isTombstone then a else b := by
  rw [merge, compare_eq_iff_eq.mpr h]

theorem rank_lt_iff : a.rank < b.rank ↔
    a.order < b.order ∨ a.order = b.order ∧ a.isTombstone = false ∧ b.isTombstone = true := by
  rw [rank, rank, Prod.Lex.toLex_lt_toLex, Bool.lt_iff]

theorem rank_eq_iff : a.rank = b.rank ↔ a.order = b.order ∧ a.isTombstone = b.isTombstone := by
  rw [rank, rank, toLex_inj, Prod.mk.injEq]

theorem selectsBy_merge : SelectsBy rank (fun rank ↦ (ofLex rank).2) merge where
  left {a b} h := by
    rcases rank_lt_iff.mp h with hlt | ⟨heq, -, htomb⟩
    · exact merge_of_gt hlt
    · rw [merge_of_eq heq.symm, htomb, if_pos rfl]
  right {a b} h := by
    rcases rank_lt_iff.mp h with hlt | ⟨heq, hlive, -⟩
    · exact merge_of_lt hlt
    · rw [merge_of_eq heq, hlive, if_neg Bool.false_ne_true]
  either a b := by
    unfold merge
    split
    · exact .inl rfl
    · exact .inr rfl
    · exact ite_eq_or_eq ..
  -- of two tombstones the first stays, of two live values the second
  tie {a b} h := merge_of_eq (rank_eq_iff.mp h).1

theorem merge_self (a : ReplicatedValueRecord) : a.merge a = a := by
  rw [merge_of_eq rfl, ite_self]

theorem merge_comm_iff : a.merge b = b.merge a ↔ (a.rank = b.rank → a = b) := by
  rcases lt_trichotomy a.rank b.rank with hlt | heq | hlt
  · rw [selectsBy_merge.right hlt, selectsBy_merge.left hlt]
    exact iff_of_true rfl fun heq ↦ (hlt.ne heq).elim
  · obtain ⟨horder, hkind⟩ := rank_eq_iff.mp heq
    rw [merge_of_eq horder, merge_of_eq horder.symm, hkind]
    split_ifs
    · exact ⟨fun h _ ↦ h, fun h ↦ h heq⟩
    · exact ⟨fun h _ ↦ h.symm, fun h ↦ (h heq).symm⟩
  · rw [selectsBy_merge.left hlt, selectsBy_merge.right hlt]
    exact iff_of_true rfl fun heq ↦ (hlt.ne' heq).elim

end ReplicatedValueRecord

open ReplicatedValueRecord

/-! ### The replica store -/

structure ValueStoreError where
  message : String
deriving DecidableEq

structure InMemoryReplicatedValueStore where
  records : KeyMap Key ReplicatedValueRecord := ∅
  maxTotalBytes : ℕ := maxWord
  rejectedTotal : ℕ := 0

namespace InMemoryReplicatedValueStore

/-- An empty store, with room for one byte at least. -/
def withBudget (maxTotalBytes : ℕ) : InMemoryReplicatedValueStore where
  maxTotalBytes := max maxTotalBytes 1

section

variable (store : InMemoryReplicatedValueStore)

/-- The bytes charged for what the store holds. -/
def totalBytes : ℕ :=
  KeyMap.total approxBytes store.records

/-- The record fits the budget in the place of the one under its key. -/
def wouldFit (key : Key) (record : ReplicatedValueRecord) : Bool :=
  let existing := ((store.records.lookup key).map approxBytes).getD 0
  decide (saturatingAdd (store.totalBytes - existing) record.approxBytes ≤ store.maxTotalBytes)

/-- Merge a record into the one under its key. -/
def upsert (key : Key) (record : ReplicatedValueRecord) :
    Except ValueStoreError Unit × InMemoryReplicatedValueStore :=
  if store.wouldFit key record then
    let merged := (store.records.lookup key).elim record fun current ↦ current.merge record
    (.ok (), { store with records := store.records.insert key merged })
  else
    (.error ⟨"replicated value store total byte budget exceeded"⟩,
      { store with rejectedTotal := saturatingSucc store.rejectedTotal })

def get (key : Key) : Option ReplicatedValueRecord :=
  store.records.lookup key

end

/-- Upsert records one after another, up to the first that is refused. -/
def upsertAll (store : InMemoryReplicatedValueStore) (key : Key) :
    List ReplicatedValueRecord → Except ValueStoreError Unit × InMemoryReplicatedValueStore
  | [] => (.ok (), store)
  | record :: records =>
    match store.upsert key record with
    | (.ok (), next) => next.upsertAll key records
    | (.error error, next) => (.error error, next)

/-- Every record fits in the place of the one under `key`. -/
def HasRoom (store : InMemoryReplicatedValueStore) (key : Key)
    (records : List ReplicatedValueRecord) : Prop :=
  ∀ record ∈ records,
    KeyMap.total approxBytes (store.records.erase key) + record.approxBytes ≤ store.maxTotalBytes

variable {store : InMemoryReplicatedValueStore} {key : Key} {record : ReplicatedValueRecord}
  {records : List ReplicatedValueRecord}

theorem upsert_of_hasRoom (h : store.HasRoom key (record :: records)) :
    store.upsert key record = (.ok (), { store with
      records := store.records.insert key
        ((store.records.lookup key).elim record fun current ↦ current.merge record) }) := by
  have hfits : store.wouldFit key record = true := by
    refine decide_eq_true ((min_le_left _ _).trans ?_)
    rw [totalBytes, KeyMap.total_eq_add_erase _ _ key, Nat.add_sub_cancel_left]
    exact h record List.mem_cons_self
  rw [upsert, if_pos hfits]

/-- An upsert of the key does not change the room beside it. -/
theorem HasRoom.insert (h : store.HasRoom key records) (value : ReplicatedValueRecord) :
    HasRoom { store with records := store.records.insert key value } key records := by
  intro other hother
  have hsplit := KeyMap.total_eq_add_erase approxBytes (store.records.insert key value) key
  rw [KeyMap.total_insert, AList.lookup_insert] at hsplit
  have hbeside := Nat.add_left_cancel hsplit
  have hroom := h other hother
  rwa [hbeside] at hroom

/-- Assumes: room for every record. All are accepted, and the store holds what the merge keeps of
its record and theirs. -/
theorem upsertAll_of_hasRoom (h : store.HasRoom key records) :
    ∃ s, store.upsertAll key records = (.ok (), s) ∧
      s.get key = records.foldl (fun kept record ↦ some (kept.elim record (·.merge record)))
        (store.get key) := by
  induction records generalizing store with
  | nil => exact ⟨store, rfl, rfl⟩
  | cons record records ih =>
    have hrest : store.HasRoom key records := fun other hother ↦
      h other (List.mem_cons_of_mem record hother)
    obtain ⟨s, hs, hget⟩ := ih (hrest.insert
      ((store.records.lookup key).elim record fun current ↦ current.merge record))
    refine ⟨s, ?_, ?_⟩
    · rwa [upsertAll, upsert_of_hasRoom h]
    · rw [hget, get, AList.lookup_insert]
      rfl

/-- The records can arrive in any order and with any duplicates: all are accepted, and the store
ends with the same record. -/
def Converges (store : InMemoryReplicatedValueStore) (key : Key)
    (records : List ReplicatedValueRecord) : Prop :=
  ∃ final, ∀ arrivals, (∀ record, record ∈ arrivals ↔ record ∈ records) →
    ∃ s, store.upsertAll key arrivals = (.ok (), s) ∧ s.get key = final

/-- Records of the highest (version, epoch), tombstones before live values, are the same. -/
def AgreeAtTop (records : List ReplicatedValueRecord) : Prop :=
  ∀ first second, Tops rank {record | record ∈ records} first →
    Tops rank {record | record ∈ records} second → first = second

theorem hasRoom_of_get_eq_none (hnew : store.get key = none)
    (hbud : ∀ record ∈ records, store.totalBytes + record.approxBytes ≤ store.maxTotalBytes) :
    store.HasRoom key records := by
  intro record hrec
  have hsplit := KeyMap.total_eq_add_erase approxBytes store.records key
  rw [get] at hnew
  rw [hnew, Option.map_none, Option.getD_none, Nat.zero_add] at hsplit
  rw [← hsplit]
  exact hbud record hrec

/-- Assumes: a store without the key whose budget admits every record. The records converge exactly
when those of the highest rank agree. The merge is associative and idempotent on all records, and
commutes on two records exactly when they differ in rank or are the same. -/
theorem upsert_converges_iff (store : InMemoryReplicatedValueStore) (key : Key)
    (records : List ReplicatedValueRecord) (hnew : store.get key = none)
    (hbudget : ∀ record ∈ records, store.totalBytes + record.approxBytes ≤ store.maxTotalBytes) :
    (store.Converges key records ↔ AgreeAtTop records) ∧
      (∀ a b c : ReplicatedValueRecord, (a.merge b).merge c = a.merge (b.merge c)) ∧
      (∀ a : ReplicatedValueRecord, a.merge a = a) ∧
      (∀ a b : ReplicatedValueRecord, a.merge b = b.merge a ↔ (a.rank = b.rank → a = b)) := by
  refine ⟨?_, selectsBy_merge.assoc, merge_self, fun a b ↦ merge_comm_iff⟩
  have harrive (arrivals : List ReplicatedValueRecord)
      (hsame : ∀ record, record ∈ arrivals ↔ record ∈ records) :
      ∃ s, store.upsertAll key arrivals = (.ok (), s) ∧ s.get key = accumulate merge arrivals := by
    have hroom := hasRoom_of_get_eq_none hnew fun record hrec ↦
      hbudget record ((hsame record).mp hrec)
    rw [accumulate, ← hnew]
    exact upsertAll_of_hasRoom hroom
  rw [AgreeAtTop, ← selectsBy_merge.accumulate_congr_iff]
  constructor
  · rintro ⟨final, hfinal⟩
    have hkept (arrivals : List ReplicatedValueRecord)
        (hsame : ∀ record, record ∈ arrivals ↔ record ∈ records) :
        accumulate merge arrivals = final := by
      obtain ⟨s, hs, hget⟩ := harrive arrivals hsame
      obtain ⟨s', hs', hget'⟩ := hfinal arrivals hsame
      rw [hs] at hs'
      cases hs'
      rw [← hget, hget']
    intro arrivals others harr hothers
    rw [hkept arrivals harr, hkept others hothers]
  · intro hsame
    refine ⟨accumulate merge records, fun arrivals harr ↦ ?_⟩
    obtain ⟨s, hs, hget⟩ := harrive arrivals harr
    exact ⟨s, hs, hget.trans (hsame arrivals records harr fun _ ↦ Iff.rfl)⟩

/-- A live value and a tombstone of the same (version, epoch) converge. -/
theorem upsert_converges_value_tombstone :
    (∀ record ∈ [value 0 3 1 [7], .tombstone 0 3 1 none],
        ({} : InMemoryReplicatedValueStore).totalBytes + record.approxBytes ≤ maxWord) ∧
      ({} : InMemoryReplicatedValueStore).Converges "user:1"
        [.value 0 3 1 [7], .tombstone 0 3 1 none] := by
  have hbud : ∀ record ∈ [value 0 3 1 [7], .tombstone 0 3 1 none],
      ({} : InMemoryReplicatedValueStore).totalBytes + record.approxBytes ≤ maxWord := by
    decide
  refine ⟨hbud, (upsert_converges_iff {} "user:1" _ rfl hbud).1.mpr ?_⟩
  have htop {record : ReplicatedValueRecord}
      (h : Tops rank {record | record ∈ [value 0 3 1 [7], .tombstone 0 3 1 none]} record) :
      record = .tombstone 0 3 1 none := by
    obtain ⟨hmem, hle⟩ := h
    rcases List.mem_cons.mp hmem with rfl | hmem
    · exact absurd (hle (.tombstone 0 3 1 none) (List.mem_cons_of_mem _ List.mem_cons_self))
        (by decide)
    · exact List.mem_singleton.mp hmem
  exact fun first second hfirst hsnd ↦ (htop hfirst).trans (htop hsnd).symm

/-- Two live values of the same (version, epoch): the one upserted last stays, so that two replicas
that see them in different orders end with different records. -/
theorem upsert_diverges_on_live_tie :
    (∀ record ∈ [value 0 3 1 [7], .value 0 3 1 [8]],
        ({} : InMemoryReplicatedValueStore).totalBytes + record.approxBytes ≤ maxWord) ∧
      ¬ ({} : InMemoryReplicatedValueStore).Converges "user:1"
        [.value 0 3 1 [7], .value 0 3 1 [8]] ∧
      (value 0 3 1 [7]).merge (.value 0 3 1 [8]) ≠ (value 0 3 1 [8]).merge (.value 0 3 1 [7]) := by
  refine ⟨by decide, ?_, by decide⟩
  rintro ⟨final, hfinal⟩
  obtain ⟨s, hs, hget⟩ := hfinal [.value 0 3 1 [7], .value 0 3 1 [8]] fun _ ↦ Iff.rfl
  obtain ⟨s', hs', hget'⟩ := hfinal [.value 0 3 1 [8], .value 0 3 1 [7]] fun record ↦ by
    simp [or_comm]
  cases hs
  cases hs'
  rw [← hget'] at hget
  exact absurd hget (by decide)

end InMemoryReplicatedValueStore

/-! ### Merge policies -/

/-- The record to keep of the winner's and the loser's, or `none` to discard the loser's. -/
abbrev MergePolicy := Option ReplicatedValueRecord → ReplicatedValueRecord →
  Option ReplicatedValueRecord

/-- The default policy. -/
def higherVersionWins : MergePolicy := fun winner loser ↦
  some (winner.elim loser fun winner ↦ winner.merge loser)

/-- Keep the loser's record only where the winner has none. -/
def putIfAbsent : MergePolicy := fun winner loser ↦ winner.or (some loser)

/-- Keep none of the loser's records. -/
def discardLoser : MergePolicy := fun _ _ ↦ none

end HydraCache.Grid
