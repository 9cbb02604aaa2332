import HydraCache.Grid.Record
import HydraCache.Lib.OrderedMap
import Mathlib.Data.List.Induction
import Mathlib.Data.String.Basic

/-!
# Replay of hints

A write that a replica missed is kept as a hint for it. When the replica is back its hints are
decided one by one against the records it held before the replay (`replayHints`).
`replay_eq_merge_iff` says when writing the records of the hints to be replayed, one after the
other, leaves the merge of them all.
-/

set_option autoImplicit false

namespace HydraCache.Grid

open Lib ReplicatedValueRecord List

structure Hint where
  target : String
  key : Key
  partition : ℕ
  version : ℕ
  epoch : ℕ
  sealedBytes : SealedBytes
  createdAtMillis : ℕ
deriving DecidableEq

def Hint.toRecord (hint : Hint) : ReplicatedValueRecord :=
  .value hint.partition hint.version hint.epoch hint.sealedBytes

inductive HintReplayDecision
  | replayed (record : ReplicatedValueRecord)
  | suppressedByNewerValue (current : ReplicatedValueRecord)
  | suppressedByTombstone (current : ReplicatedValueRecord)
deriving DecidableEq

/-- The record to be written. -/
def HintReplayDecision.record? : HintReplayDecision → Option ReplicatedValueRecord
  | .replayed record => some record
  | _ => none

def applyHint (current : Option ReplicatedValueRecord) (hint : Hint) : HintReplayDecision :=
  match current with
  | none => .replayed hint.toRecord
  | some current =>
    if current.isTombstone ∧ toLex (hint.version, hint.epoch) ≤ current.order then
      .suppressedByTombstone current
    else if current.merge hint.toRecord = hint.toRecord then .replayed hint.toRecord
    else .suppressedByNewerValue current

def replayHints (hints : List Hint) (currentByKey : OrderedMap Key ReplicatedValueRecord) :
    List HintReplayDecision :=
  hints.map fun hint ↦ applyHint (currentByKey.get hint.key) hint

/-- Write the records of the hints to be replayed under their keys, in the order of the list. -/
def writeReplayed (target : OrderedMap Key ReplicatedValueRecord)
    (rows : List (Hint × HintReplayDecision)) : OrderedMap Key ReplicatedValueRecord :=
  rows.foldl (fun target row ↦ row.2.record?.elim target (target.insert row.1.key)) target

/-- The records of the hints for a key. -/
def recordsFor (key : Key) (hints : List Hint) : List ReplicatedValueRecord :=
  (hints.filter (·.key = key)).map Hint.toRecord

/-- The record does not rank below the one the target holds. -/
def Stands (current : Option ReplicatedValueRecord) (record : ReplicatedValueRecord) : Prop :=
  ∀ held ∈ current, held.rank ≤ record.rank

instance (current : Option ReplicatedValueRecord) : DecidablePred (Stands current) := fun _ ↦
  inferInstanceAs (Decidable (∀ held ∈ current, _))

section

variable {held record : ReplicatedValueRecord} {current : Option ReplicatedValueRecord}

theorem merge_eq_right_iff (hlive : record.isTombstone = false) :
    held.merge record = record ↔ held.rank ≤ record.rank := by
  rcases lt_trichotomy held.rank record.rank with hlt | heq | hlt
  · exact iff_of_true (selectsBy_merge.right hlt) hlt.le
  · obtain ⟨horder, hkind⟩ := rank_eq_iff.mp heq
    rw [merge_of_eq horder, hkind, hlive]
    exact iff_of_true rfl heq.le
  · rw [selectsBy_merge.left hlt]
    exact iff_of_false (fun heq ↦ hlt.ne (heq ▸ rfl)) hlt.not_ge

theorem rank_le_rank_iff (hheld : held.isTombstone = false) :
    held.rank ≤ record.rank ↔ held.order ≤ record.order := by
  rw [← not_lt, rank_lt_iff, hheld, ← not_lt]
  simp

theorem record?_applyHint (current : Option ReplicatedValueRecord) (hint : Hint) :
    (applyHint current hint).record? =
      if Stands current hint.toRecord then some hint.toRecord else none := by
  cases current with
  | none => simp [applyHint, Stands, HintReplayDecision.record?]
  | some held =>
    have hstands : Stands (some held) hint.toRecord ↔ held.merge hint.toRecord = hint.toRecord := by
      simp [Stands, @merge_eq_right_iff held hint.toRecord rfl]
    by_cases htomb : held.isTombstone ∧ toLex (hint.version, hint.epoch) ≤ held.order
    · have hmerge : held.merge hint.toRecord ≠ hint.toRecord := by
        rw [Ne, merge_eq_right_iff rfl, not_le, rank_lt_iff]
        exact htomb.2.lt_or_eq.imp_right fun heq ↦ ⟨heq, rfl, htomb.1⟩
      simp [applyHint, htomb, hstands, hmerge, HintReplayDecision.record?]
    · by_cases hmerge : held.merge hint.toRecord = hint.toRecord <;>
        simp [applyHint, htomb, hstands, hmerge, HintReplayDecision.record?]

/-- Assumes: live records. The last of those that stand is what the records merge to exactly if no
other is above it. -/
theorem getLast?_eq_accumulate_iff {records : List ReplicatedValueRecord}
    (hlive : ∀ record ∈ records, record.isTombstone = false) :
    (records.filter (Stands current)).getLast?.or current =
        accumulate merge (current.toList ++ records) ↔
      ∀ last ∈ (records.filter (Stands current)).getLast?, ∀ record ∈ records,
        record.order ≤ last.order := by
  induction records using List.reverseRecOn with
  | nil => cases current <;> simp [accumulate]
  | append_singleton records record ih =>
    have hkept : accumulate merge (current.toList ++ (records ++ [record])) =
        some ((accumulate merge (current.toList ++ records)).elim record (merge · record)) := by
      rw [← append_assoc, accumulate, foldl_append]
      rfl
    have hmember := hlive record (by simp)
    by_cases hstands : Stands current record
    · have hlast : ((records ++ [record]).filter (Stands current)).getLast? = some record := by
        simp [filter_append, hstands]
      rw [hlast, hkept]
      cases hacc : accumulate merge (current.toList ++ records) with
      | none =>
        have hempty := accumulate_eq_none.mp hacc
        simp_all
      | some merged =>
        obtain ⟨hmem, hle⟩ := selectsBy_merge.tops_of_accumulate hacc
        simp only [Option.some_or, Option.elim_some, Option.some.injEq, Option.mem_def, forall_eq']
        rw [eq_comm, merge_eq_right_iff hmember]
        constructor
        · intro hmerged other hother
          refine (rank_le_rank_iff (hlive other hother)).mp ?_
          rcases mem_append.mp hother with hother | hother
          · exact (hle other (mem_append_right _ hother)).trans hmerged
          · rw [mem_singleton.mp hother]
        · intro habove
          rcases mem_append.mp hmem with hheld | hmem
          · exact hstands merged (Option.mem_toList.mp hheld)
          · have hmem := mem_append_left [record] hmem
            exact (rank_le_rank_iff (hlive merged hmem)).mpr (habove merged hmem)
    · obtain ⟨held, rfl, hlt⟩ : ∃ held, current = some held ∧ record.rank < held.rank := by
        simpa [Stands] using hstands
      cases hacc : accumulate merge ((some held).toList ++ records) with
      | none => simp [accumulate_eq_none] at hacc
      | some merged =>
        have hmerged := (selectsBy_merge.tops_of_accumulate hacc).2 held (by simp)
        have hfilter : (records ++ [record]).filter (Stands (some held)) =
            records.filter (Stands (some held)) := by
          simp [filter_append, hstands]
        rw [hkept, hacc, hfilter, Option.elim_some, selectsBy_merge.left (hlt.trans_le hmerged),
          ← hacc, ih fun other hother ↦ hlive other (mem_append_left _ hother)]
        refine forall₂_congr fun last hlast ↦ ?_
        have hbelow : record.order ≤ last.order := by
          have hst := of_decide_eq_true (mem_filter.mp (mem_of_getLast? hlast)).2 held rfl
          exact Prod.Lex.monotone_fst _ _ (hlt.le.trans hst)
        simp [or_imp, forall_and, hbelow]

theorem get_writeReplayed (current target : OrderedMap Key ReplicatedValueRecord)
    (hints : List Hint) (key : Key) :
    (writeReplayed target (hints.zip (replayHints hints current))).get key =
      ((recordsFor key hints).filter (Stands (current.get key))).getLast?.or (target.get key) := by
  induction hints generalizing target with
  | nil => rfl
  | cons hint hints ih =>
    refine (ih _).trans ?_
    dsimp only
    rw [record?_applyHint, recordsFor, recordsFor]
    by_cases hkey : hint.key = key
    · subst hkey
      split_ifs with hstands <;> simp [hstands, OrderedMap.get_insert, getLast?_cons]
    · split_ifs <;> simp [hkey, OrderedMap.get_insert, Ne.symm hkey]

end

/-- Writing the records of the hints to be replayed leaves for each key the merge of what the target
held and all its hints exactly if for each key no hint is above the last of those that stand. -/
theorem replay_eq_merge_iff (hints : List Hint) (current : OrderedMap Key ReplicatedValueRecord) :
    (∀ key, (writeReplayed current (hints.zip (replayHints hints current))).get key =
        accumulate merge ((current.get key).toList ++ recordsFor key hints)) ↔
      ∀ key, ∀ last ∈ ((recordsFor key hints).filter (Stands (current.get key))).getLast?,
        ∀ record ∈ recordsFor key hints, record.order ≤ last.order := by
  refine forall_congr' fun key ↦ ?_
  rw [get_writeReplayed]
  refine getLast?_eq_accumulate_iff fun record hrecord ↦ ?_
  obtain ⟨hint, -, rfl⟩ := mem_map.mp hrecord
  rfl

/-- Two hints for a key the target does not hold, the newer first. -/
theorem older_hint_written_last :
    let hints : List Hint := [⟨"b", "k", 0, 2, 1, [2], 0⟩, ⟨"b", "k", 0, 1, 1, [1], 0⟩]
    (writeReplayed ∅ (hints.zip (replayHints hints ∅))).get "k" = some (.value 0 1 1 [1]) ∧
      accumulate merge (recordsFor "k" hints) = some (.value 0 2 1 [2]) := by
  decide +kernel

end HydraCache.Grid
