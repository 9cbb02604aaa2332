import HydraCache.Grid.SessionContext

/-!
# The dependencies a session write carries

A write carries a summary of what its session observed before it: one exact stamp for each of at
most `cap` keys, and a floor that stands for the stamps that no longer fit (`coarsenOne`). A replica
makes the write visible when nothing of the summary is missing from the set of stamps it has applied
(`causalApply`). A summary is relieved of the stamps an applied set covers already (`gcStable`).

A summary never drops a stamp on its own: after any operations on it, each observed stamp is either
still required, exactly or through the floor, or was covered by the applied set of one of the
collections (`tracked`). So the replica's own decision is right as long as it covers what those
applied sets covered (`observed_covered_of_apply`).

`gcStable` asks `covers` about an exact stamp, which also answers yes when the stamp was only
applied on the replica at hand and no floor says that it is stable everywhere. A summary collected
on one replica then lets a write through on another that has not applied its cause
(`gcStable_drops_local_dependency`).
-/

set_option autoImplicit false

namespace HydraCache.Grid

open Lib List Option OrderedMap

namespace VersionStamp

def covers (stamp required : VersionStamp) : Bool := required ≤ stamp

theorem covers_iff {stamp required : VersionStamp} : stamp.covers required ↔ required ≤ stamp :=
  decide_eq_true_iff

end VersionStamp

/-! ### What a replica has applied -/

structure AppliedSet where
  applied : OrderedMap PartitionKey VersionStamp := ∅
  stableFloor : Option VersionStamp := none
deriving DecidableEq

namespace AppliedSet

section

variable (self : AppliedSet)

def markApplied (key : PartitionKey) (stamp : VersionStamp) : AppliedSet :=
  { self with applied := self.applied.insert key ((self.applied.get key).elim stamp (max · stamp)) }

def markStableFloor (stamp : VersionStamp) : AppliedSet :=
  { self with stableFloor := some (self.stableFloor.elim stamp (max · stamp)) }

def coversCoarseFloor (required : VersionStamp) : Bool :=
  self.stableFloor.any (·.covers required)

def covers (key : PartitionKey) (required : VersionStamp) : Bool :=
  self.coversCoarseFloor required || (self.applied.get key).any (·.covers required)

end

/-- Everything the first set covers, the second covers. -/
def CoveredBy (self other : AppliedSet) : Prop :=
  ∀ key stamp, self.covers key stamp → other.covers key stamp

variable {self : AppliedSet} {key : PartitionKey} {stamp required : VersionStamp}

theorem coversCoarseFloor_iff :
    self.coversCoarseFloor required ↔
      ∃ floor, self.stableFloor = some floor ∧ required ≤ floor := by
  simp only [coversCoarseFloor, Option.any_eq_true, VersionStamp.covers_iff]

theorem covers_iff :
    self.covers key required ↔ self.coversCoarseFloor required ∨
      ∃ stamp, self.applied.get key = some stamp ∧ required ≤ stamp := by
  simp only [covers, Bool.or_eq_true, Option.any_eq_true, VersionStamp.covers_iff]

/-- A set that covers a stamp covers the older ones. -/
theorem covers_of_le (hle : stamp ≤ required) (h : self.covers key required) :
    self.covers key stamp := by
  rw [covers_iff, coversCoarseFloor_iff] at h ⊢
  rcases h with ⟨floor, hfloor, hreq⟩ | ⟨applied, happ, hreq⟩
  · exact .inl ⟨floor, hfloor, hle.trans hreq⟩
  · exact .inr ⟨applied, happ, hle.trans hreq⟩

theorem covers_of_coversCoarseFloor (h : self.coversCoarseFloor required) :
    self.covers key required :=
  covers_iff.mpr (.inl h)

/-- What a replica has applied stays applied. -/
theorem coveredBy_markApplied (self : AppliedSet) (key : PartitionKey) (stamp : VersionStamp) :
    self.CoveredBy (self.markApplied key stamp) := by
  intro other required h
  rw [covers_iff] at h ⊢
  refine h.imp id ?_
  rintro ⟨existing, hold, hreq⟩
  change ∃ found, (self.applied.insert key _).get other = some found ∧ _
  rw [get_insert]
  split_ifs with hkey
  · subst hkey
    rw [hold]
    exact ⟨_, rfl, hreq.trans (le_max_left ..)⟩
  · exact ⟨existing, hold, hreq⟩

theorem coveredBy_markStableFloor (self : AppliedSet) (stamp : VersionStamp) :
    self.CoveredBy (self.markStableFloor stamp) := by
  intro other required h
  rw [covers_iff, coversCoarseFloor_iff] at h ⊢
  refine h.imp ?_ id
  rintro ⟨floor, hfloor, hreq⟩
  refine ⟨_, rfl, ?_⟩
  rw [hfloor]
  exact hreq.trans (le_max_left ..)

end AppliedSet

open AppliedSet

/-! ### The summary -/

/-- A dependency that is missing before a write can become visible. -/
inductive CausalDependencyMissing where
  | exact (key : PartitionKey) (required : VersionStamp)
  | coarseFloor (required : VersionStamp)
deriving DecidableEq

structure CausalSummary where
  cap : ℕ
  deps : OrderedMap PartitionKey VersionStamp
  coarseFloor : Option VersionStamp
  coarsenedTotal : ℕ
  positive : 1 ≤ cap
  bounded : deps.rows.length ≤ cap

namespace CausalSummary

def new (cap : ℕ) : CausalSummary where
  cap := max cap 1
  deps := ∅
  coarseFloor := none
  coarsenedTotal := 0
  positive := one_le_cap cap
  bounded := length_empty_le_cap cap

/-- The first dependency of least stamp, in the order of the keys. -/
def leastDep (summary : CausalSummary) : Option (PartitionKey × VersionStamp) :=
  summary.deps.rows.argmin Prod.snd

def coarsenOne (summary : CausalSummary) : CausalSummary :=
  match summary.leastDep with
  | some (key, stamp) =>
    { summary with
      deps := summary.deps.remove key
      coarseFloor := some (summary.coarseFloor.elim stamp (max · stamp))
      coarsenedTotal := saturatingSucc summary.coarsenedTotal
      bounded := (summary.deps.length_remove_le key).trans summary.bounded }
  | none => summary

/-- The summary before a new key is entered. -/
def makeRoom (summary : CausalSummary) : CausalSummary :=
  if summary.cap ≤ summary.deps.rows.length then summary.coarsenOne else summary

variable (summary : CausalSummary) {key other : PartitionKey} {stamp : VersionStamp}

theorem get_leastDep (h : summary.leastDep = some (key, stamp)) :
    summary.deps.get key = some stamp :=
  (summary.deps.get_eq_some_iff).mpr (argmin_mem h)

theorem exists_leastDep (h : 0 < summary.deps.rows.length) :
    ∃ row, summary.leastDep = some row := by
  refine ne_none_iff_exists'.mp fun hnone ↦ ?_
  exact ne_nil_of_length_pos h (argmin_eq_none.mp hnone)

theorem length_makeRoom_lt : summary.makeRoom.deps.rows.length < summary.makeRoom.cap := by
  unfold makeRoom
  split_ifs with hfull
  · obtain ⟨⟨key, stamp⟩, hleast⟩ := summary.exists_leastDep (summary.positive.trans hfull)
    have hsome : (summary.deps.get key).isSome := isSome_of_eq_some (summary.get_leastDep hleast)
    rw [coarsenOne, hleast]
    exact (summary.deps.length_remove_lt hsome).trans_le summary.bounded
  · exact Nat.lt_of_not_le hfull

/-- Observe a read or write dependency. -/
def observe (summary : CausalSummary) (key : PartitionKey) (stamp : VersionStamp) : CausalSummary :=
  match summary.deps.get key with
  | some _ =>
    { summary with
      deps := summary.deps.modify key fun existing ↦ if existing < stamp then stamp else existing
      bounded := (length_map _).trans_le summary.bounded }
  | none =>
    { summary.makeRoom with
      deps := summary.makeRoom.deps.insert key stamp
      bounded :=
        (summary.makeRoom.deps.length_insert_le key stamp).trans summary.length_makeRoom_lt }

section

variable (summary : CausalSummary)

def notYetApplied (applied : AppliedSet) : List CausalDependencyMissing :=
  ((summary.coarseFloor.filter fun required ↦ !applied.coversCoarseFloor required).toList.map
      .coarseFloor) ++
    (summary.deps.rows.filter fun row ↦ !applied.covers row.1 row.2).map fun row ↦
      .exact row.1 row.2

/-- The number of dependencies retained, the floor counted as one. -/
def retained : ℕ :=
  summary.deps.rows.length + summary.coarseFloor.isSome.toNat

/-- The summary without what the applied set covers. -/
def withoutCovered (applied : AppliedSet) : CausalSummary where
  cap := summary.cap
  deps := summary.deps.filter fun key stamp ↦ !applied.covers key stamp
  coarseFloor :=
    if summary.coarseFloor.any applied.coversCoarseFloor then none else summary.coarseFloor
  coarsenedTotal := summary.coarsenedTotal
  positive := summary.positive
  bounded := (length_filter_le _ _).trans summary.bounded

/-- Remove what the applied set covers, and say how many dependencies that was. -/
def gcStable (applied : AppliedSet) : ℕ × CausalSummary :=
  (summary.retained - (summary.withoutCovered applied).retained, summary.withoutCovered applied)

/-! ### What a summary requires -/

/-- The stamp is required under its key, or the floor stands for it. -/
def Requires (key : PartitionKey) (stamp : VersionStamp) : Prop :=
  (∃ required, summary.deps.get key = some required ∧ stamp ≤ required) ∨
    ∃ floor, summary.coarseFloor = some floor ∧ stamp ≤ floor

end

/-- The floor only rises. -/
theorem floor_coarsenOne {floor : VersionStamp} (h : summary.coarseFloor = some floor) :
    ∃ raised, summary.coarsenOne.coarseFloor = some raised ∧ floor ≤ raised := by
  unfold coarsenOne
  split
  · next least leastStamp _ =>
    refine ⟨_, rfl, ?_⟩
    rw [h]
    exact le_max_left floor leastStamp
  · exact ⟨floor, h, le_rfl⟩

/-- A stamp the cap pushes out is required through the floor. -/
theorem requires_coarsenOne (h : summary.Requires key stamp) :
    summary.coarsenOne.Requires key stamp := by
  rcases h with ⟨required, hget, hle⟩ | ⟨floor, hfloor, hle⟩
  · unfold coarsenOne
    split
    · next least leastStamp hleast =>
      by_cases hkey : key = least
      · subst hkey
        have hreq : leastStamp = required :=
          Option.some.inj ((summary.get_leastDep hleast).symm.trans hget)
        refine .inr ⟨_, rfl, (hle.trans_eq hreq.symm).trans ?_⟩
        cases summary.coarseFloor with
        | none => exact le_rfl
        | some floor => exact le_max_right floor leastStamp
      · refine .inl ⟨required, ?_, hle⟩
        rw [get_remove, if_neg hkey, hget]
    · exact .inl ⟨required, hget, hle⟩
  · obtain ⟨raised, hraised, hfloorLe⟩ := summary.floor_coarsenOne hfloor
    exact .inr ⟨raised, hraised, hle.trans hfloorLe⟩

theorem requires_makeRoom (h : summary.Requires key stamp) :
    summary.makeRoom.Requires key stamp := by
  unfold makeRoom
  split_ifs
  · exact summary.requires_coarsenOne h
  · exact h

/-- Only a key that is held has an exact stamp once there is room. -/
theorem get_makeRoom_eq_none (h : summary.deps.get key = none) :
    summary.makeRoom.deps.get key = none := by
  unfold makeRoom coarsenOne
  split_ifs
  · split
    · rw [get_remove, h, ite_self]
    · exact h
  · exact h

theorem requires_observe_self (key : PartitionKey) (stamp : VersionStamp) :
    (summary.observe key stamp).Requires key stamp := by
  unfold observe
  split
  · next existing hold =>
    refine .inl ⟨max existing stamp, ?_, le_max_right ..⟩
    rw [get_modify, if_pos rfl, hold, max_def_lt]
    rfl
  · exact .inl ⟨stamp, get_insert_self .., le_rfl⟩

theorem requires_observe (other : PartitionKey) (later : VersionStamp)
    (h : summary.Requires key stamp) :
    (summary.observe other later).Requires key stamp := by
  unfold observe
  split
  · next existing hold =>
    refine h.imp ?_ id
    rintro ⟨required, hget, hle⟩
    rw [get_modify]
    split_ifs with hkey
    · subst hkey
      cases hold.symm.trans hget
      refine ⟨max existing later, ?_, hle.trans (le_max_left ..)⟩
      rw [hold, max_def_lt]
      rfl
    · exact ⟨required, hget, hle⟩
  · next hnone =>
    refine (summary.requires_makeRoom h).imp ?_ id
    rintro ⟨required, hget, hle⟩
    have hkey : key ≠ other := by
      rintro rfl
      exact some_ne_none required (hget.symm.trans (summary.get_makeRoom_eq_none hnone))
    exact ⟨required, (get_insert_of_ne _ later hkey).trans hget, hle⟩

/-- What a collection takes out, its applied set covers. -/
theorem requires_gcStable (applied : AppliedSet) (h : summary.Requires key stamp) :
    (summary.gcStable applied).2.Requires key stamp ∨ applied.covers key stamp := by
  rcases h with ⟨required, hget, hle⟩ | ⟨floor, hfloor, hle⟩
  · by_cases hcov : applied.covers key required
    · exact .inr (covers_of_le hle hcov)
    · refine .inl (.inl ⟨required, ?_, hle⟩)
      change (summary.deps.filter _).get key = _
      rw [OrderedMap.get_filter, hget, filter_some, if_pos]
      rw [Bool.eq_false_iff.mpr hcov]
      rfl
  · by_cases hcov : applied.coversCoarseFloor floor
    · exact .inr (covers_of_le hle (covers_of_coversCoarseFloor hcov))
    · refine .inl (.inr ⟨floor, ?_, hle⟩)
      change (if summary.coarseFloor.any applied.coversCoarseFloor then none else _) = _
      rw [hfloor, any_some, if_neg hcov]

/-- A set that misses nothing of the summary covers all the summary requires. -/
theorem covers_of_requires {applied : AppliedSet} (hnone : summary.notYetApplied applied = [])
    (h : summary.Requires key stamp) : applied.covers key stamp := by
  obtain ⟨hfloor, hexact⟩ := append_eq_nil_iff.mp hnone
  rw [map_eq_nil_iff] at hfloor hexact
  rcases h with ⟨required, hget, hle⟩ | ⟨floor, hget, hle⟩
  · have hrow := filter_eq_nil_iff.mp hexact _ ((summary.deps.get_eq_some_iff).mp hget)
    rw [Bool.not_eq_true, Bool.not_eq_false'] at hrow
    exact covers_of_le hle hrow
  · rw [hget, filter_some] at hfloor
    have hcov : applied.coversCoarseFloor floor := by
      by_contra hnot
      rw [if_pos (by rw [Bool.eq_false_iff.mpr hnot]; rfl)] at hfloor
      exact cons_ne_nil _ _ hfloor
    exact covers_of_le hle (covers_of_coversCoarseFloor hcov)

end CausalSummary

/-! ### Making a write visible -/

inductive ApplyDecision where
  | apply
  | defer (missing : List CausalDependencyMissing)
deriving DecidableEq

structure CausalWrite where
  key : PartitionKey
  stamp : VersionStamp
  deps : CausalSummary

/-- The dependencies that hold a write back. -/
structure CausalApplyDeferred where
  missing : List CausalDependencyMissing
deriving DecidableEq

def causalApply (localApplied : AppliedSet) (writeDeps : CausalSummary) : ApplyDecision :=
  match writeDeps.notYetApplied localApplied with
  | [] => .apply
  | missing => .defer missing

def applyCausalWrite (localApplied : AppliedSet) (write : CausalWrite) :
    Except CausalApplyDeferred Unit × AppliedSet :=
  match causalApply localApplied write.deps with
  | .apply => (.ok (), localApplied.markApplied write.key write.stamp)
  | .defer missing => (.error ⟨missing⟩, localApplied)

theorem causalApply_eq_apply_iff {localApplied : AppliedSet} {writeDeps : CausalSummary} :
    causalApply localApplied writeDeps = .apply ↔ writeDeps.notYetApplied localApplied = [] := by
  unfold causalApply
  split
  · next hnil => exact iff_of_true rfl hnil
  · next hcons => exact iff_of_false ApplyDecision.noConfusion hcons

/-! ### Summaries over their lifetime -/

/-- What is done to a summary. -/
inductive SummaryOp where
  | observe (key : PartitionKey) (stamp : VersionStamp)
  | gcStable (applied : AppliedSet)

def SummaryOp.perform (summary : CausalSummary) : SummaryOp → CausalSummary
  | .observe key stamp => summary.observe key stamp
  | .gcStable applied => (summary.gcStable applied).2

section

variable (cap : ℕ) (ops : List SummaryOp)

def summaryAfter : CausalSummary :=
  ops.foldl SummaryOp.perform (.new cap)

/-- Each observed stamp is required, or one of the collections had it covered. -/
theorem tracked {key : PartitionKey} {stamp : VersionStamp} (hobs : .observe key stamp ∈ ops) :
    (summaryAfter cap ops).Requires key stamp ∨
      ∃ applied, .gcStable applied ∈ ops ∧ applied.covers key stamp := by
  induction ops using List.reverseRecOn with
  | nil => exact absurd hobs not_mem_nil
  | append_singleton ops op ih =>
    have hlater : ∀ {other}, other ∈ ops → other ∈ ops ++ [op] := mem_append_left _
    rw [summaryAfter, foldl_concat, ← summaryAfter]
    cases op with
    | observe other later =>
      rcases mem_append.mp hobs with hprev | hlast
      · rcases ih hprev with hreq | ⟨applied, hgc, hcov⟩
        · exact .inl (CausalSummary.requires_observe _ other later hreq)
        · exact .inr ⟨applied, hlater hgc, hcov⟩
      · cases mem_singleton.mp hlast
        exact .inl (CausalSummary.requires_observe_self ..)
    | gcStable applied =>
      have hprev : .observe key stamp ∈ ops := by
        rcases mem_append.mp hobs with hprev | hlast
        · exact hprev
        · cases mem_singleton.mp hlast
      rcases ih hprev with hreq | ⟨earlier, hgc, hcov⟩
      · refine (CausalSummary.requires_gcStable _ applied hreq).imp id fun hcov ↦ ?_
        exact ⟨applied, mem_append_right _ (mem_singleton.mpr rfl), hcov⟩
      · exact .inr ⟨earlier, hlater hgc, hcov⟩

/-- Assumes: the replica covers what the applied set of each collection covered. It makes a write
visible only once it covers all that was ever observed into the write's summary, and a write it
holds back leaves what it has applied alone. -/
theorem observed_covered_of_apply (localApplied : AppliedSet)
    (hcollected : ∀ applied, .gcStable applied ∈ ops → applied.CoveredBy localApplied) :
    (causalApply localApplied (summaryAfter cap ops) = .apply →
      ∀ key stamp, .observe key stamp ∈ ops → localApplied.covers key stamp) ∧
    ∀ write deferred, (applyCausalWrite localApplied write).1 = .error deferred →
      (applyCausalWrite localApplied write).2 = localApplied := by
  refine ⟨fun happly key stamp hobs ↦ ?_, fun write deferred herror ↦ ?_⟩
  · rcases tracked cap ops hobs with hreq | ⟨applied, hgc, hcov⟩
    · exact CausalSummary.covers_of_requires _ (causalApply_eq_apply_iff.mp happly) hreq
    · exact hcollected applied hgc key stamp hcov
  · unfold applyCausalWrite at herror ⊢
    split at herror
    · cases herror
    · rfl

end

/-- A replica collects against what it has applied itself, and goes on applying. -/
theorem observed_covered_of_apply_own_collection : let key : PartitionKey := ⟨1, "region-a"⟩
    let stamp : VersionStamp := { version := 5 }
    let collected := markApplied {} key stamp
    let localApplied :=
      (collected.markApplied ⟨2, "region-b"⟩ stamp).markStableFloor { version := 2 }
    causalApply localApplied (summaryAfter 1 [.observe key stamp, .gcStable collected]) = .apply ∧
      localApplied.covers key stamp := by
  intro key stamp collected localApplied
  have happly : causalApply localApplied
      (summaryAfter 1 [.observe key stamp, .gcStable collected]) = .apply := by decide +kernel
  refine ⟨happly, ?_⟩
  refine (observed_covered_of_apply 1 [.observe key stamp, .gcStable collected] localApplied
    ?_).1 happly key stamp mem_cons_self
  intro applied hgc
  obtain rfl : applied = collected := by simpa using hgc
  intro other required hcov
  have happ := coveredBy_markApplied collected ⟨2, "region-b"⟩ stamp other required hcov
  exact coveredBy_markStableFloor _ { version := 2 } other required happ

/-- A stamp applied on one replica only is taken out of the summary there, and the write becomes
visible on a replica that has applied nothing. -/
theorem gcStable_drops_local_dependency : let key : PartitionKey := ⟨1, "region-a"⟩
    let stamp : VersionStamp := { version := 5 }
    let ops : List SummaryOp := [.observe key stamp, .gcStable (markApplied {} key stamp)]
    (markApplied {} key stamp).stableFloor = none ∧
      causalApply {} (summaryAfter 1 ops) = .apply ∧ covers {} key stamp = false := by
  decide +kernel

end HydraCache.Grid
