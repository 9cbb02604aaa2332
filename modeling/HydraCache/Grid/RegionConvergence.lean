import HydraCache.Grid.ActiveActive
import HydraCache.Lib.Run

/-!
# Do active-active regions converge?

Regions that have received all writes should hold the same record for every key (`Converged`). They
do in every run in which a local write beats the write that its region holds for the key
(`converged_of_supersedes`): each region then holds the best of the writes it has seen.

A local write need not do so. A region applies its own write over whatever it holds, with the next
version of its own counter, and that counter does not move when a write of another region is
received. A region that has received a write of a higher version and then writes the key itself is
left with its own write, while every other region keeps the higher one
(`converged_lost_by_lower_version`).
-/

set_option autoImplicit false

namespace HydraCache.Grid

open Lib ActiveActiveState List Function KeyMap

/-! ### The better write -/

namespace GeoWrite

/-- What `chooseHlcTiebreak` selects by. -/
def rank (write : GeoWrite) : (ℕ ×ₗ ℕ) ×ₗ ((ℕ ×ₗ ℕ) ×ₗ (RegionId ×ₗ String)) :=
  toLex (write.order, write.stamp)

variable {a b : GeoWrite}

theorem rank_lt_iff : a.rank < b.rank ↔ a.order < b.order ∨ a.order = b.order ∧ a.stamp < b.stamp :=
  Prod.Lex.toLex_lt_toLex

/-- Writes of different regions differ in rank. -/
theorem originRegion_eq_of_rank_eq (h : a.rank = b.rank) : a.originRegion = b.originRegion := by
  have hstamp : a.stamp = b.stamp := (Prod.mk.inj (toLex_inj.mp h)).2
  have hnode := (Prod.mk.inj (toLex_inj.mp hstamp)).2
  exact (Prod.mk.inj (toLex_inj.mp hnode)).1

theorem selects_chooseHlcTiebreak : Selects rank chooseHlcTiebreak where
  left {a b} h := by
    rcases rank_lt_iff.mp h with hlt | ⟨heq, hlt⟩
    · rw [chooseHlcTiebreak, compare_gt_iff_gt.mpr hlt]
    · rw [chooseHlcTiebreak, compare_eq_iff_eq.mpr heq.symm]
      exact if_pos hlt.le
  right {a b} h := by
    rcases rank_lt_iff.mp h with hlt | ⟨heq, hlt⟩
    · rw [chooseHlcTiebreak, compare_lt_iff_lt.mpr hlt]
    · rw [chooseHlcTiebreak, compare_eq_iff_eq.mpr heq]
      exact if_neg hlt.not_ge
  either a b := by
    unfold chooseHlcTiebreak
    split
    · exact .inl rfl
    · exact .inr rfl
    · split_ifs
      · exact .inl rfl
      · exact .inr rfl

/-- The second write is chosen only if it ranks higher, or is the first. -/
theorem rank_lt_of_chooseHlcTiebreak (h : chooseHlcTiebreak a b = b) : a.rank < b.rank ∨ a = b := by
  rcases lt_trichotomy a.rank b.rank with hlt | heq | hlt
  · exact .inl hlt
  · obtain ⟨horder, hstamp⟩ := Prod.mk.inj (toLex_inj.mp heq)
    rw [chooseHlcTiebreak, compare_eq_iff_eq.mpr horder] at h
    exact .inr ((if_pos hstamp.ge).symm.trans h)
  · rw [selects_chooseHlcTiebreak.left hlt] at h
    exact .inr h

end GeoWrite

namespace System

/-! ### The property -/

/-- The regions of `members` that have received every write of every other region hold the same
record for every key. -/
def Converged (s : System) (members : Set RegionId) : Prop :=
  (∀ write ∈ s.accepted, ∀ region ∈ members, region ≠ write.originRegion →
      write ∈ s.received region) →
    ∀ first ∈ members, ∀ second ∈ members, ∀ key,
      (s.regions first).record key = (s.regions second).record key

/-- A local write beats the write that its region holds for the key. -/
def Supersedes (s : System) : Label → Prop
  | .accept region key value observedWall =>
    ∀ held, (s.regions region).writes.lookup key = some held →
      chooseHlcTiebreak held ((s.regions region).localWrite key value observedWall) =
        (s.regions region).localWrite key value observedWall
  | _ => True

instance (s : System) : DecidablePred (Supersedes s)
  | .accept region key .. =>
    inferInstanceAs (Decidable (∀ held ∈ (s.regions region).writes.lookup key, _ = _))
  | .drain _ | .deliver .. => .isTrue trivial

/-- A policy asked about a record alone keeps it, or discards it, which keeps it too. -/
def KeepsLoneRecord (policy : MergePolicy) : Prop :=
  ∀ incoming, (policy none incoming).getD incoming = incoming

theorem keepsLoneRecord_higherVersionWins : KeepsLoneRecord higherVersionWins := fun _ ↦ rfl

theorem keepsLoneRecord_putIfAbsent : KeepsLoneRecord putIfAbsent := fun _ ↦ rfl

theorem keepsLoneRecord_discardLoser : KeepsLoneRecord discardLoser := fun _ ↦ rfl

/-! ### The invariant -/

/-- The writes that a region has accepted or received. -/
def seen (s : System) (region : RegionId) : Set GeoWrite :=
  {write | write ∈ s.accepted ∧ write.originRegion = region ∨ write ∈ s.received region}

/-- The writes of one key. -/
def ofKey (writes : Set GeoWrite) (key : Key) : Set GeoWrite :=
  {write | write ∈ writes ∧ write.key = key}

/-- A region holds the best of the writes of `key` in `writes`. -/
def Holds (region : ActiveActiveState) (key : Key) (writes : Set GeoWrite) : Prop :=
  match region.writes.lookup key with
  | some held => Tops GeoWrite.rank (ofKey writes key) held
  | none => ofKey writes key = ∅

/-- A region in active-active mode that holds the best of the writes in `writes`, and their
records. -/
structure HoldsBest (id : RegionId) (region : ActiveActiveState) (writes : Set GeoWrite) :
    Prop where
  localRegion : region.localRegion = id
  active : region.config.authority.isActiveActive = true
  ready : region.config.activeActiveReady = true
  holds : ∀ key, Holds region key writes
  records : ∀ key, region.record key = (region.writes.lookup key).map GeoWrite.toRecord

/-- Every region holds the best of the writes it has seen, and writes of one key differ in rank. -/
structure RegionInvariant (s : System) : Prop where
  regions : ∀ region, HoldsBest region (s.regions region) (s.seen region)
  received : ∀ region, ∀ write ∈ s.received region, write ∈ s.accepted
  network : ∀ write ∈ s.network, write ∈ s.accepted
  pending : ∀ region, ∀ write ∈ (s.regions region).pending, write ∈ s.accepted
  distinct : ∀ first ∈ s.accepted, ∀ second ∈ s.accepted, first.key = second.key →
    first.rank = second.rank → first = second

theorem regionInvariant_initial (setup : RegionId → RegionSetup) :
    RegionInvariant (initial setup) where
  regions region := by
    refine ⟨rfl, rfl, rfl, fun key ↦ ?_, fun key ↦ rfl⟩
    change ofKey (seen _ region) key = ∅
    simp [ofKey, seen, initial]
  received := by simp [initial]
  network := by simp [initial]
  pending := by simp [initial, newRegion]
  distinct := by simp [initial]

/-! ### What a step does to a region -/

/-- The write a region holds after it has seen `write`. -/
def winner (region : ActiveActiveState) (write : GeoWrite) : GeoWrite :=
  (region.writes.lookup write.key).elim write fun held ↦ chooseHlcTiebreak held write

variable {region : ActiveActiveState} {policy : MergePolicy} {write : GeoWrite} {key : Key}
  {region' : ActiveActiveState} {writes : Set GeoWrite}

theorem acceptLocalWrite_of_ready (hactive : region.config.authority.isActiveActive = true)
    (hready : region.config.activeActiveReady = true) (key : Key) (value : SealedBytes)
    (observedWall : ℕ) :
    (region.acceptLocalWrite key value observedWall).1.isOk = true ∧
      (region.acceptLocalWrite key value observedWall).2 =
        { region with
          nextVersion := saturatingSucc region.nextVersion
          clock := (region.localWrite key value observedWall).hlc
          records := region.records.insert key (region.localWrite key value observedWall).toRecord
          writes := region.writes.insert key (region.localWrite key value observedWall)
          pending := region.pending ++ [region.localWrite key value observedWall] } := by
  have haccepts : region.config.authority.acceptsLocalWritesIn region.localRegion = true := by
    cases hauthority : region.config.authority with
    | homeRegionOnly =>
      rw [hauthority] at hactive
      cases hactive
    | activeActive => rfl
  unfold acceptLocalWrite
  simp only [haccepts, hactive, hready, Bool.not_true, Bool.and_false, Bool.false_eq_true,
    if_false, if_true]
  exact ⟨rfl, trivial⟩

theorem lookup_writes_reconcileRemote (region : ActiveActiveState) (write : GeoWrite)
    (policy : MergePolicy) (key : Key) :
    (region.reconcileRemote write policy).writes.lookup key =
      if key = write.key then some (winner region write) else region.writes.lookup key := by
  unfold reconcileRemote winner
  split
  · rename_i existing hold
    rw [hold]
    exact lookup_insert_apply ..
  · rename_i hnone
    rw [hnone]
    exact lookup_insert_apply ..

/-- Assumes: the region has a record exactly for the keys it holds a write of. -/
theorem record_reconcileRemote (hpol : KeepsLoneRecord policy)
    (hrecs : ∀ key, region.record key = (region.writes.lookup key).map GeoWrite.toRecord)
    (write : GeoWrite) (key : Key) :
    (region.reconcileRemote write policy).record key =
      ((region.reconcileRemote write policy).writes.lookup key).map GeoWrite.toRecord := by
  rw [lookup_writes_reconcileRemote]
  unfold reconcileRemote winner record
  split
  · rename_i existing hold
    rw [lookup_insert_apply, hold]
    split_ifs
    · rfl
    · exact hrecs key
  · rename_i hnone
    have hrec : region.records.lookup write.key = none := by
      have hsame := hrecs write.key
      rwa [hnone] at hsame
    rw [lookup_insert_apply, hnone, hrec, hpol]
    split_ifs
    · rfl
    · exact hrecs key

theorem reconcileRemote_setup (region : ActiveActiveState) (write : GeoWrite)
    (policy : MergePolicy) :
    (region.reconcileRemote write policy).localRegion = region.localRegion ∧
      (region.reconcileRemote write policy).config = region.config ∧
      (region.reconcileRemote write policy).pending = region.pending := by
  unfold reconcileRemote
  split <;> exact ⟨rfl, rfl, rfl⟩

theorem ofKey_insert (writes : Set GeoWrite) (write : GeoWrite) :
    ofKey (insert write writes) write.key = insert write (ofKey writes write.key) := by
  ext other
  by_cases hother : other = write <;> simp [ofKey, hother]

theorem ofKey_insert_of_ne (writes : Set GeoWrite)
    (hkey : key ≠ write.key) : ofKey (insert write writes) key = ofKey writes key := by
  ext other
  by_cases hother : other = write <;> simp [ofKey, hother, hkey.symm]

/-- The winner is the best of what the region had seen and the new write. -/
theorem Holds.of_winner (h : Holds region write.key writes)
    (hwinner : region'.writes.lookup write.key = some (winner region write)) :
    Holds region' write.key (insert write writes) := by
  unfold Holds at h ⊢
  rw [hwinner, winner, ofKey_insert]
  cases hlook : region.writes.lookup write.key with
  | some =>
    rw [hlook] at h
    exact GeoWrite.selects_chooseHlcTiebreak.tops_insert h write
  | none =>
    rw [hlook] at h
    rw [h, insert_empty_eq]
    exact tops_singleton GeoWrite.rank write

/-- A region that has seen one more write, and holds the winner for its key. -/
theorem HoldsBest.see {id : RegionId} (h : HoldsBest id region writes)
    (hlocal : region'.localRegion = region.localRegion) (hconf : region'.config = region.config)
    (hlook : ∀ key, region'.writes.lookup key =
      if key = write.key then some (winner region write) else region.writes.lookup key)
    (hrecs : ∀ key, region'.record key = (region'.writes.lookup key).map GeoWrite.toRecord) :
    HoldsBest id region' (insert write writes) := by
  refine ⟨hlocal.trans h.localRegion, ?_, ?_, fun key ↦ ?_, hrecs⟩
  · rw [hconf]
    exact h.active
  · rw [hconf]
    exact h.ready
  · by_cases hkey : key = write.key
    · subst hkey
      refine (h.holds ..).of_winner ?_
      rw [hlook, if_pos rfl]
    · have hpre := h.holds key
      unfold Holds at hpre ⊢
      rwa [hlook, if_neg hkey, ofKey_insert_of_ne writes hkey]

/-! ### Preservation -/

variable {s : System}

theorem RegionInvariant.mem_accepted (h : RegionInvariant s) {region : RegionId}
    (hseen : write ∈ s.seen region) : write ∈ s.accepted := by
  rcases hseen with hown | hrecv
  · exact hown.1
  · exact h.received region write hrecv

section

variable (s : System) (regions : RegionId → ActiveActiveState) (write : GeoWrite)

/-- A write accepted is seen by its own region. -/
theorem seen_accept (region : RegionId) :
    seen { s with regions, accepted := s.accepted ++ [write] } region =
      if region = write.originRegion then insert write (s.seen region) else s.seen region := by
  ext other
  split_ifs with hreg
  · by_cases hother : other = write <;> simp [seen, hreg, hother]
  · by_cases hother : other = write <;> simp [seen, Ne.symm hreg, hother]

/-- A write delivered is seen by the region it is delivered to. -/
theorem seen_deliver (region other : RegionId) :
    seen { s with
        regions
        received := Function.update s.received region (s.received region ++ [write]) } other =
      if other = region then insert write (s.seen other) else s.seen other := by
  split_ifs with hother
  · subst hother
    ext seen
    simp only [System.seen, update_self, mem_append, mem_singleton,
      Set.mem_insert_iff, Set.mem_ofPred_eq]
    tauto
  · simp only [seen, update_of_ne hother]

end

theorem RegionInvariant.deliver (h : RegionInvariant s) (hpol : KeepsLoneRecord policy)
    (region : RegionId) (hwrite : write ∈ s.network) :
    RegionInvariant { s with
      regions := Function.update s.regions region ((s.regions region).reconcileRemote write policy)
      received := Function.update s.received region (s.received region ++ [write]) } := by
  obtain ⟨hlocal, hconf, hpend⟩ := reconcileRemote_setup (s.regions ..) write policy
  refine ⟨fun other ↦ ?_, fun other ↦ ?_, h.network, fun other ↦ ?_, h.distinct⟩
  all_goals by_cases hother : other = region
  · subst hother
    rw [seen_deliver, if_pos rfl]
    simp only [update_self]
    exact (h.regions other).see hlocal hconf (lookup_writes_reconcileRemote _ write policy)
      (record_reconcileRemote hpol (h.regions other).records write)
  · rw [seen_deliver, if_neg hother]
    simp only [update_of_ne hother]
    exact h.regions other
  · subst hother
    simp only [update_self]
    exact forall_mem_append.mpr
      ⟨h.received other, forall_mem_singleton.mpr (h.network write hwrite)⟩
  · simp only [update_of_ne hother]
    exact h.received other
  · subst hother
    simp only [update_self, hpend]
    exact h.pending other
  · simp only [update_of_ne hother]
    exact h.pending other

section

variable (h : RegionInvariant s) {region : RegionId} {value : SealedBytes} {observedWall : ℕ}
include h

/-- Assumes: the region's own write beats the one it holds. Then no other write of the key has its
rank. -/
theorem RegionInvariant.localWrite_distinct
    (hbeats : Supersedes s (.accept region key value observedWall)) (hwrite : write ∈ s.accepted)
    (hkey : write.key = key)
    (hrank : write.rank = ((s.regions region).localWrite key value observedWall).rank) :
    write = (s.regions region).localWrite key value observedWall := by
  have horig : write.originRegion = region :=
    (GeoWrite.originRegion_eq_of_rank_eq hrank).trans (h.regions ..).localRegion
  have hseen : write ∈ ofKey (s.seen region) key := ⟨.inl ⟨hwrite, horig⟩, hkey⟩
  have hholds := (h.regions region).holds key
  unfold Holds at hholds
  cases hlook : (s.regions region).writes.lookup key with
  | none =>
    rw [hlook] at hholds
    simp [hholds] at hseen
  | some held =>
    rw [hlook] at hholds
    have hle : write.rank ≤ held.rank := hholds.2 write hseen
    rcases GeoWrite.rank_lt_of_chooseHlcTiebreak (hbeats held hlook) with hlt | heq
    · exact absurd hrank (hle.trans_lt hlt).ne
    · rw [← heq] at hrank ⊢
      exact h.distinct write hwrite held (h.mem_accepted hholds.1.1)
        (hkey.trans hholds.1.2.symm) hrank

/-- Assumes: the region's own write beats the one it holds. -/
theorem RegionInvariant.accept (hbeats : Supersedes s (.accept region key value observedWall)) :
    RegionInvariant { s with
      regions := Function.update s.regions region
        ((s.regions region).acceptLocalWrite key value observedWall).2
      accepted := s.accepted ++ [(s.regions region).localWrite key value observedWall] } := by
  have hreg := h.regions region
  have hstate :=
    (acceptLocalWrite_of_ready hreg.active hreg.ready key value observedWall).2
  have hnew {other : GeoWrite} (hother : other ∈ s.accepted) (hkey : other.key = key)
      (hrank : other.rank = ((s.regions ..).localWrite key value observedWall).rank) :
      other = (s.regions ..).localWrite key value observedWall :=
    h.localWrite_distinct hbeats hother hkey hrank
  -- the region's own write is the winner over the one it holds
  have hwinner : winner (s.regions region)
      ((s.regions region).localWrite key value observedWall) =
        (s.regions region).localWrite key value observedWall := by
    unfold winner
    cases hlook : (s.regions region).writes.lookup key with
    | none =>
      rw [show (s.regions ..).writes.lookup ((s.regions ..).localWrite key value
        observedWall).key = none from hlook]
      rfl
    | some held =>
      rw [show (s.regions ..).writes.lookup ((s.regions ..).localWrite key value
        observedWall).key = some held from hlook]
      exact hbeats held hlook
  have horig : ((s.regions region).localWrite key value observedWall).originRegion = region :=
    hreg.localRegion
  have hkey : ((s.regions region).localWrite key value observedWall).key = key := rfl
  generalize (s.regions region).localWrite key value observedWall = write at *
  rw [hstate]
  refine ⟨fun other ↦ ?_, fun other received hrecv ↦ ?_, fun sent hsent ↦ ?_,
    fun other queued hqueue ↦ ?_, fun first hfirst second hsnd hsame hrank ↦ ?_⟩
  · rw [seen_accept, horig]
    by_cases hother : other = region
    · subst hother
      rw [if_pos rfl]
      simp only [update_self]
      refine hreg.see rfl rfl (fun name ↦ ?_) fun name ↦ ?_
      · rw [hwinner, hkey]
        exact lookup_insert_apply ..
      · simp only [record, lookup_insert_apply]
        split_ifs
        · rfl
        · exact hreg.records name
    · rw [if_neg hother]
      simp only [update_of_ne hother]
      exact h.regions other
  · exact mem_append_left _ (h.received other received hrecv)
  · exact mem_append_left _ (h.network sent hsent)
  · by_cases hother : other = region
    · subst hother
      simp only [update_self] at hqueue
      rcases mem_append.mp hqueue with hmem | hmem
      · exact mem_append_left _ (h.pending other queued hmem)
      · exact mem_append_right _ hmem
    · simp only [update_of_ne hother] at hqueue
      exact mem_append_left _ (h.pending other queued hqueue)
  · rcases mem_append.mp hfirst with hold | hlast <;>
      rcases mem_append.mp hsnd with hold' | hlast'
    · exact h.distinct first hold second hold' hsame hrank
    · obtain rfl := mem_singleton.mp hlast'
      exact hnew hold (hsame.trans hkey) hrank
    · obtain rfl := mem_singleton.mp hlast
      exact (hnew hold' (hsame.symm.trans hkey) hrank.symm).symm
    · rw [mem_singleton.mp hlast, mem_singleton.mp hlast']

theorem RegionInvariant.drain (region : RegionId) : RegionInvariant { s with
      regions := Function.update s.regions region (s.regions region).drainPending.2
      network := s.network ++ (s.regions region).drainPending.1 } := by
  refine ⟨fun other ↦ ?_, h.received, fun sent hsent ↦ ?_, fun other queued hqueue ↦ ?_, h.distinct⟩
  · by_cases hother : other = region
    · subst hother
      obtain ⟨hlocal, hactive, hready, hholds, hrecs⟩ := h.regions other
      simp only [update_self]
      exact ⟨hlocal, hactive, hready, hholds, hrecs⟩
    · simp only [update_of_ne hother]
      exact h.regions other
  · rcases mem_append.mp hsent with hmem | hmem
    · exact h.network sent hmem
    · exact h.pending region sent hmem
  · by_cases hother : other = region
    · subst hother
      simp only [update_self] at hqueue
      cases hqueue
    · simp only [update_of_ne hother] at hqueue
      exact h.pending other queued hqueue

end

/-- Assumes: a step in which a local write beats the write that its region holds. -/
theorem RegionInvariant.step (hpol : KeepsLoneRecord policy)
    {label : Label} {s' : System} (h : RegionInvariant s) (hbeats : Supersedes s label)
    (hstep : System.step policy s label = some s') : RegionInvariant s' := by
  cases label with
  | accept region key value observedWall =>
    have hreg := h.regions region
    have hok := (acceptLocalWrite_of_ready hreg.active hreg.ready key value observedWall).1
    simp only [System.step, hok, if_true, Option.some.injEq] at hstep
    subst hstep
    exact h.accept hbeats
  | drain region =>
    cases hstep
    exact h.drain region
  | deliver region =>
    simp only [System.step] at hstep
    split_ifs at hstep with hwrite
    cases hstep
    exact h.deliver hpol region hwrite

/-- Regions that have received everything have seen the same writes, and hold the best of them. -/
theorem RegionInvariant.converged (h : RegionInvariant s) (members : Set RegionId) :
    s.Converged members := by
  intro hrecv first hfirst second hsecond key
  have hseen {region : RegionId} (hmember : region ∈ members) :
      s.seen region = {write | write ∈ s.accepted} := by
    ext write
    refine ⟨h.mem_accepted, fun hwrite ↦ ?_⟩
    by_cases horig : write.originRegion = region
    · exact .inl ⟨hwrite, horig⟩
    · exact .inr (hrecv write hwrite region hmember (Ne.symm horig))
  have hfst := (h.regions first).holds key
  have hsnd := (h.regions second).holds key
  rw [(h.regions first).records, (h.regions ..).records]
  unfold Holds at hfst hsnd
  rw [hseen hfirst] at hfst
  rw [hseen hsecond] at hsnd
  have hagree : ∀ a ∈ ofKey {write | write ∈ s.accepted} key,
      ∀ b ∈ ofKey {write | write ∈ s.accepted} key, a.rank = b.rank → a = b :=
    fun a ha b hb ↦ h.distinct a ha.1 b hb.1 (ha.2.trans hb.2.symm)
  congr 1
  cases hheld : (s.regions first).writes.lookup key with
  | some =>
    rw [hheld] at hfst
    cases hheld' : (s.regions second).writes.lookup key with
    | some =>
      rw [hheld'] at hsnd
      rw [Tops.eq_of_agree hagree hfst hsnd]
    | none =>
      rw [hheld'] at hsnd
      have hmem := hfst.1
      simp [hsnd] at hmem
  | none =>
    rw [hheld] at hfst
    cases hheld' : (s.regions second).writes.lookup key with
    | some =>
      rw [hheld'] at hsnd
      have hmem := hsnd.1
      simp [hfst] at hmem
    | none => rfl

/-- Assumes: a policy that keeps a record it is asked about alone, and a run in which every local
write beats the write that its region holds for the key. Regions that have received every write of
every other region hold the same record for every key. -/
theorem converged_of_supersedes (policy : MergePolicy) (hpolicy : KeepsLoneRecord policy)
    (setup : RegionId → RegionSetup) (labels : List Label) (s : System)
    (hrun : run (System.step policy) (initial setup) labels = some s)
    (hbeats : Along (System.step policy) Supersedes (initial setup) labels)
    (members : Set RegionId) : s.Converged members := by
  have h : RegionInvariant s :=
    run_invariant (fun s label s' hC hI hstep ↦ hI.step hpolicy hC hstep)
      (regionInvariant_initial setup) hbeats hrun
  exact h.converged members

/-! ### Two regions -/

/-- Two regions and the home of their writes. -/
def twoRegions (region : RegionId) : RegionSetup where
  home := "eu"
  node := region
  partitionCount := 1
  epoch := 7
  peers := ["eu", "us"]

/-- One region writes a key, and the other writes it when it has received that. -/
def answeredWriteLabels : List Label :=
  [.accept "us" "user:1" [1] 10, .drain "us",
    .deliver "eu" ⟨"user:1", 0, 1, 7, ⟨10, 0⟩, "us", "us", [1]⟩,
    .accept "eu" "user:1" [2] 5, .drain "eu",
    .deliver "us" ⟨"user:1", 0, 1, 7, ⟨10, 2⟩, "eu", "eu", [2]⟩]

theorem converged_answeredWriteLabels :
    ∃ s, run (System.step higherVersionWins) (initial twoRegions) answeredWriteLabels = some s ∧
      s.Converged {"eu", "us"} ∧
      (s.regions "us").record "user:1" = some (.value 0 1 7 [2]) := by
  exact ⟨_, rfl, converged_of_supersedes higherVersionWins keepsLoneRecord_higherVersionWins
    twoRegions answeredWriteLabels _ rfl (by decide) _, by decide⟩

/-- One region writes a key twice, and the other writes it when it has received both. -/
def lowerVersionLabels : List Label :=
  [.accept "us" "user:1" [1] 10, .accept "us" "user:1" [2] 11, .drain "us",
    .deliver "eu" ⟨"user:1", 0, 1, 7, ⟨10, 0⟩, "us", "us", [1]⟩,
    .deliver "eu" ⟨"user:1", 0, 2, 7, ⟨11, 0⟩, "us", "us", [2]⟩,
    .accept "eu" "user:1" [3] 12, .drain "eu",
    .deliver "us" ⟨"user:1", 0, 1, 7, ⟨12, 0⟩, "eu", "eu", [3]⟩]

/-- The second region's write has version one. It stays there, and loses to version two at the
first. -/
theorem converged_lost_by_lower_version :
    ∃ s, run (System.step higherVersionWins) (initial twoRegions) lowerVersionLabels = some s ∧
      ¬ s.Converged {"eu", "us"} := by
  refine ⟨_, rfl, fun hconverged ↦ ?_⟩
  have hsame := hconverged ?_ "eu" (by simp) "us" (by simp) "user:1"
  · exact absurd hsame (by decide)
  · intro write hwrite region hreg
    rcases hreg with rfl | rfl
    · revert write
      decide
    · revert write
      decide

end System

end HydraCache.Grid
