import HydraCache.Grid.Residency

/-!
# Replication windows and quorum reads

A record is sent to a backup when the window of the peer has a free slot (`sendRecord`). The slot is
given back with the acknowledgement, which an upsert that fails never brings:
`inFlight_sendRecord_iff` says which sends leave the count of the slots in use as it was.

A quorum read serves the last record of a stable sort by (version, epoch) of the replies at or above
the watermark of the caller (`quorumReadYourWrites`), which among ties is the one that came last.
`served_eq_merge_iff` says when that is their merge whatever the order of the replies.

Scope. The store of the backup is any store, given by its upsert.
-/

set_option autoImplicit false

namespace HydraCache.Grid

open Lib ReplicatedValueRecord

/-! ### Windows -/

namespace AdaptiveWindow

def new (floor initial ceil : ℕ) : AdaptiveWindow where
  inFlight := 0
  maxInFlight := min (max initial (max floor 1)) (max ceil (max floor 1))
  floor := max floor 1
  ceil := max ceil (max floor 1)

/-- An acknowledgement frees a slot and adjusts the limit. -/
def onAck (window : AdaptiveWindow) (rttOk : Bool) : AdaptiveWindow :=
  { window with
    inFlight := window.inFlight - 1
    maxInFlight := if rttOk then min (saturatingSucc window.maxInFlight) window.ceil
      else max (window.maxInFlight / 2) window.floor }

end AdaptiveWindow

structure LiveReplicationSend where
  admitted : Bool
  maxInFlight : ℕ
deriving DecidableEq

variable {σ ε : Type} (upsert : σ → Key → ReplicatedValueRecord → Except ε Unit × σ)

/-- Send a record to the store of a backup, if the window of the peer admits it. -/
def sendRecord (window : AdaptiveWindow) (backup : σ) (key : Key) (record : ReplicatedValueRecord)
    (rttOk : Bool) : Except ε LiveReplicationSend × AdaptiveWindow × σ :=
  match window.tryAcquire with
  | (false, window) => (.ok ⟨false, window.maxInFlight⟩, window, backup)
  | (true, window) =>
    match upsert backup key record with
    | (.error error, backup) => (.error error, window, backup)
    | (.ok (), backup) => (.ok ⟨true, (window.onAck rttOk).maxInFlight⟩, window.onAck rttOk, backup)

/-- Assumes: a limit that is a word. A send leaves as many slots in use as there were exactly if it
is not admitted or the upsert goes through. -/
theorem inFlight_sendRecord_iff {window : AdaptiveWindow} (hword : window.maxInFlight ≤ maxWord)
    (backup : σ) (key : Key) (record : ReplicatedValueRecord) (rttOk : Bool) :
    (sendRecord upsert window backup key record rttOk).2.1.inFlight = window.inFlight ↔
      window.maxInFlight ≤ window.inFlight ∨ (upsert backup key record).1 = .ok () := by
  unfold sendRecord AdaptiveWindow.tryAcquire
  by_cases hfree : window.inFlight < window.maxInFlight
  · have hsucc : saturatingSucc window.inFlight = window.inFlight + 1 :=
      Nat.min_eq_left (hfree.trans_le hword)
    rcases upsert backup key record with ⟨error | ⟨⟩, next⟩
    · simp [hfree, hsucc]
    · simp [hfree, hsucc, AdaptiveWindow.onAck]
  · simp [hfree, not_lt.mp hfree]

/-- A window of one slot. -/
theorem inFlight_sendRecord_iff_stored :
    (sendRecord InMemoryReplicatedValueStore.upsert (.new 1 1 1) {} "k" (.value 0 1 1 [7])
      true).2.1.inFlight = 0 :=
  (inFlight_sendRecord_iff _ (by decide) _ _ _ _).mpr (.inr (by decide +kernel))

/-- The upsert does not fit the budget of the backup. The slot stays in use, and the next send, of a
record that fits, is not admitted. -/
theorem slot_lost_by_failed_upsert :
    let failed := sendRecord InMemoryReplicatedValueStore.upsert (.new 1 1 1) (.withBudget 1) "k"
      (.value 0 1 1 [7, 7]) true
    failed.1.isOk = false ∧ failed.2.1.inFlight = 1 ∧
      (sendRecord InMemoryReplicatedValueStore.upsert failed.2.1 failed.2.2 "k" (.value 0 1 1 [7])
        true).1.toOption = some ⟨false, 1⟩ := by
  decide +kernel

/-! ### Quorum reads -/

structure QuorumReadDecision where
  record : Option ReplicatedValueRecord
  requiresPrimaryFallback : Bool
deriving DecidableEq

/-- The replies at or above the watermark of the caller. -/
def eligible (watermark : WriteWatermark) (replicas : List ReplicatedValueRecord) :
    List ReplicatedValueRecord :=
  replicas.filter fun record ↦ record.partition = watermark.partition ∧
    toLex (watermark.version, watermark.epoch) ≤ record.order

/-- A stable sort by (version, epoch). -/
def sortByOrder (records : List ReplicatedValueRecord) : List ReplicatedValueRecord :=
  records.insertionSort fun a b ↦ a.order ≤ b.order

def quorumReadYourWrites (watermark : WriteWatermark) (replicas : List ReplicatedValueRecord)
    (readQuorum : ℕ) : QuorumReadDecision :=
  let candidates := sortByOrder (eligible watermark replicas)
  if candidates.length < max readQuorum 1 then ⟨none, true⟩ else ⟨candidates.getLast?, false⟩

variable {records : List ReplicatedValueRecord} {record : ReplicatedValueRecord}

theorem tops_of_getLast? (h : (sortByOrder records).getLast? = some record) :
    Tops order {other | other ∈ records} record := by
  obtain ⟨before, hsort⟩ := List.getLast?_eq_some_iff.mp h
  have hmem (other : ReplicatedValueRecord) : other ∈ records ↔ other ∈ before ++ [record] := by
    rw [← hsort, sortByOrder, List.mem_insertionSort]
  have hpair : (sortByOrder records).Pairwise fun a b ↦ a.order ≤ b.order :=
    List.pairwise_insertionSort _ _
  rw [hsort, List.pairwise_append] at hpair
  refine ⟨(hmem record).mpr (by simp), fun other hother ↦ ?_⟩
  rcases List.mem_append.mp ((hmem other).mp hother) with hpre | hlast
  · exact hpair.2.2 other hpre record (by simp)
  · rw [List.mem_singleton.mp hlast]

/-- A record that is greatest stays behind those it came after. -/
theorem sortByOrder_append (h : ∀ other ∈ records, other.order ≤ record.order) :
    sortByOrder (records ++ [record]) = sortByOrder records ++ [record] := by
  have hins (first : ReplicatedValueRecord) (hle : first.order ≤ record.order)
      (rest : List ReplicatedValueRecord) :
      (rest ++ [record]).orderedInsert (fun a b ↦ a.order ≤ b.order) first =
        rest.orderedInsert (fun a b ↦ a.order ≤ b.order) first ++ [record] := by
    induction rest with
    | nil => simp [hle]
    | cons next rest ih =>
      rw [List.cons_append, List.orderedInsert_cons, List.orderedInsert_cons, ih]
      split_ifs <;> rfl
  unfold sortByOrder
  induction records with
  | nil => rfl
  | cons first rest ih =>
    obtain ⟨hfirst, hrest⟩ := List.forall_mem_cons.mp h
    rw [List.cons_append, List.insertionSort_cons, ih hrest, hins first hfirst]
    rfl

/-- The records of the highest (version, epoch) are the same. -/
def AgreeAtOrder (records : List ReplicatedValueRecord) : Prop :=
  ∀ a b, Tops order {record | record ∈ records} a → Tops order {record | record ∈ records} b → a = b

section

variable {watermark : WriteWatermark} {replicas replies : List ReplicatedValueRecord}
  {readQuorum : ℕ}

theorem record_quorumReadYourWrites (hperm : replies.Perm replicas) :
    (quorumReadYourWrites watermark replies readQuorum).record =
      if (eligible watermark replicas).length < max readQuorum 1 then none
      else (sortByOrder (eligible watermark replies)).getLast? := by
  have hlen : (sortByOrder (eligible watermark replies)).length =
      (eligible watermark replicas).length :=
    (List.length_insertionSort _ _).trans (hperm.filter _).length_eq
  unfold quorumReadYourWrites
  dsimp only
  rw [hlen]
  split_ifs <;> rfl

/-- A greatest record that came last is served. -/
theorem getLast?_eligible
    (htop : Tops order {record | record ∈ eligible watermark replicas} record) :
    (sortByOrder (eligible watermark (replicas.erase record ++ [record]))).getLast? =
      some record := by
  have hlast : eligible watermark [record] = [record] :=
    List.filter_cons_of_pos (List.mem_filter.mp htop.1).2
  rw [eligible, List.filter_append, ← eligible, ← eligible, hlast, sortByOrder_append,
    List.getLast?_concat]
  exact fun other hother ↦ htop.2 other (List.erase_sublist.filter _ |>.subset hother)

/-- Assumes: replies of which those of the highest (version, epoch) are the same. The last of the
sorted replies is their merge. -/
theorem merge_of_getLast? (hagree : AgreeAtOrder (eligible watermark replicas))
    (hperm : replies.Perm replicas)
    (hlast : (sortByOrder (eligible watermark replies)).getLast? = some record) :
    accumulate merge (eligible watermark replicas) = some record := by
  have htop := tops_of_getLast? hlast
  have hsame : {other | other ∈ eligible watermark replies} =
      {other | other ∈ eligible watermark replicas} :=
    Set.ext fun other ↦ (hperm.filter _).mem_iff
  rw [hsame] at htop
  obtain ⟨merged, hmerge⟩ := Option.ne_none_iff_exists'.mp
    (mt accumulate_eq_none.mp (List.ne_nil_of_mem htop.1))
  obtain ⟨hmem, hle⟩ := selectsBy_merge.tops_of_accumulate hmerge
  rw [hmerge, hagree merged record ⟨hmem, fun other hother ↦ ?_⟩ htop]
  exact Prod.Lex.monotone_fst _ _ (hle other hother)

end

/-- The record served is the merge of the eligible replies, in whatever order they came, exactly if
there are too few to serve one or those of the highest (version, epoch) are the same. -/
theorem served_eq_merge_iff (watermark : WriteWatermark) (replicas : List ReplicatedValueRecord)
    (readQuorum : ℕ) :
    (∀ replies, replies.Perm replicas →
        ∀ record ∈ (quorumReadYourWrites watermark replies readQuorum).record,
          accumulate merge (eligible watermark replicas) = some record) ↔
      (eligible watermark replicas).length < max readQuorum 1 ∨
        AgreeAtOrder (eligible watermark replicas) := by
  by_cases hquorum : (eligible watermark replicas).length < max readQuorum 1
  · refine iff_of_true (fun replies hperm record hrec ↦ ?_) (.inl hquorum)
    simp [record_quorumReadYourWrites hperm, hquorum] at hrec
  rw [or_iff_right hquorum]
  constructor
  · intro h
    have hlast {record : ReplicatedValueRecord}
        (htop : Tops order {record | record ∈ eligible watermark replicas} record) :
        accumulate merge (eligible watermark replicas) = some record := by
      have hperm : (replicas.erase record ++ [record]).Perm replicas :=
        (List.perm_append_singleton _ _).trans
          (List.perm_cons_erase (List.mem_of_mem_filter htop.1)).symm
      refine h _ hperm record ?_
      rw [record_quorumReadYourWrites hperm, if_neg hquorum, getLast?_eligible htop]
      rfl
    exact fun a b ha hb ↦ Option.some.inj ((hlast ha).symm.trans (hlast hb))
  · intro hagree replies hperm record hrec
    rw [record_quorumReadYourWrites hperm, if_neg hquorum] at hrec
    exact merge_of_getLast? hagree hperm hrec

/-- A tombstone and a value of one (version, epoch). -/
theorem served_value_over_tombstone :
    (quorumReadYourWrites ⟨0, 3, 1⟩ [.tombstone 0 3 1 none, .value 0 3 1 [7]] 1).record =
        some (.value 0 3 1 [7]) ∧
      accumulate merge (eligible ⟨0, 3, 1⟩ [.tombstone 0 3 1 none, .value 0 3 1 [7]]) =
        some (.tombstone 0 3 1 none) := by
  decide +kernel

end HydraCache.Grid
