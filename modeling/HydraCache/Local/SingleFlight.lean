import HydraCache.Lib.Run
import HydraCache.Local.InFlight

/-!
# Single flight

For loads of one key that all pass the same tags, while no generation advances, `singleFlight` says
that at most one load of the key is driven at any time (`OneDriven`), that a caller joins a load
only while another caller still waits for it (`JoinsLive`), and that once no handle is left and the
spawned cleanups have run the map has no entry for the key (`NoLeak`).

The last part needs a runtime to spawn the cleanup on when the last handle of a load is dropped. The
drop asks for one and does without if there is none, and the entry then stays
(`noLeak_lost_outside_runtime`).

What carries the proof is `FlightInvariant`: a load of the key that is not finished and has a handle
left is the one in the map, and the number of its handles is the number of callers waiting for it.
-/

set_option autoImplicit false

namespace HydraCache.Local.InFlight

open Lib List InFlightMap Caller

/-! ### The property -/

/-- Every call of `key` passes `tags`. -/
def SameTags (key : Key) (tags : List Tag) (_ : State) : Label → Prop
  | .call name passed => name = key → passed = tags
  | _ => True

namespace State

/-- The load is one of `key`, not finished, and some caller waits for it. -/
def Driven (s : State) (key : Key) (load : ℕ) : Prop :=
  (s.map.loads load).key = key ∧ (s.map.loads load).phase ≠ .finished ∧ ∃ i, s.Waits i load

def OneDriven (s : State) (key : Key) : Prop :=
  ∀ first second, s.Driven key first → s.Driven key second → first = second

/-- A step by which a caller comes to wait for a load that was there before leaves it with another
caller that waits for it. -/
def JoinsLive (s : State) : Prop :=
  ∀ label s', step s label = some s' → ∀ i load, load < s.map.created → ¬ s.Waits i load →
    s'.Waits i load → ∃ other, other ≠ i ∧ s.Waits other load

/-- With no handle on a load of `key` and no cleanup to run, the map has no entry for `key`. -/
def NoLeak (s : State) (key : Key) : Prop :=
  (∀ i load, s.Waits i load → (s.map.loads load).key ≠ key) →
    (∀ generation, (key, generation) ∉ s.cleanups) → s.map.entries.lookup key = none

end State

/-! ### Counting handles -/

/-- The caller waits for `load`. -/
def Caller.isWaitingOn (load : ℕ) (caller : Caller) : Bool := caller.waitsOn == some load

theorem Caller.isWaitingOn_of_waitsOn_eq_none {caller : Caller} (h : caller.waitsOn = none)
    (load : ℕ) : caller.isWaitingOn load = false := by
  rw [isWaitingOn, h]
  rfl

theorem Caller.isWaitingOn_waiting (caller : Caller) (load other : ℕ)
    (generation : LoadGenerationSnapshot) :
    (caller.moveTo (.waiting load generation)).isWaitingOn other = decide (other = load) := by
  change (some load == some other) = _
  by_cases h : other = load <;> simp [h, Ne.symm]

theorem insertLoad_loads_of_lt {map : InFlightMap} {load : ℕ} (h : load < map.created) (key : Key)
    (generation : LoadGenerationSnapshot) :
    (map.insertLoad key generation).loads load = map.loads load :=
  Function.update_of_ne (Nat.ne_of_lt h) _ _

theorem insertLoad_loads_created (map : InFlightMap) (key : Key)
    (generation : LoadGenerationSnapshot) :
    (map.insertLoad key generation).loads map.created = { key, generation } :=
  Function.update_self ..

section Count

variable {s : State} {i : ℕ} {caller : Caller} {position : Position}

theorem mem_setCaller {other : Caller} (h : other ∈ (s.setCaller i caller position).callers) :
    other ∈ s.callers ∨ other = caller.moveTo position :=
  mem_or_eq_of_mem_set h

theorem waits_setCaller {j load : ℕ} (h : (s.setCaller i caller position).Waits j load) :
    s.Waits j load ∨ (j = i ∧ (caller.moveTo position).waitsOn = some load) := by
  obtain ⟨other, hother, hload⟩ := h
  rw [State.setCaller, List.getElem?_set] at hother
  split_ifs at hother with hj
  · cases hother
    exact Or.inr ⟨hj.symm, hload⟩
  · exact Or.inl ⟨other, hother, hload⟩

/-- Moving a caller moves its handle, or whatever else is counted of it. -/
theorem countP_setCaller (hcaller : s.callers[i]? = some caller) (position : Position)
    (counted : Caller → Bool) : (s.setCaller i caller position).callers.countP counted =
      s.callers.countP counted - (if counted caller then 1 else 0) +
        if counted (caller.moveTo position) then 1 else 0 := by
  obtain ⟨hi, rfl⟩ := List.getElem?_eq_some_iff.mp hcaller
  exact countP_set hi

theorem waits_iff_countP_pos {load : ℕ} :
    (∃ i, s.Waits i load) ↔ 0 < s.callers.countP (isWaitingOn load) := by
  rw [countP_pos_iff]
  constructor
  · rintro ⟨i, caller, hcaller, hwaits⟩
    exact ⟨caller, mem_of_getElem? hcaller, by simp [isWaitingOn, hwaits]⟩
  · rintro ⟨caller, hmem, hwaits⟩
    obtain ⟨i, hi⟩ := mem_iff_getElem?.mp hmem
    exact ⟨i, caller, hi, by simpa [isWaitingOn] using hwaits⟩

end Count

/-! ### The invariant -/

/-- The loads of `key`, all started with `generation`. -/
structure FlightInvariant (key : Key) (tags : List Tag) (generation : LoadGenerationSnapshot)
    (s : State) : Prop where
  snapshot : s.index.snapshot key tags = generation
  callers : ∀ caller ∈ s.callers, caller.key = key →
    caller.tags = tags ∧ ∀ taken, caller.generation = some taken → taken = generation
  handles : ∀ caller ∈ s.callers, ∀ load, caller.waitsOn = some load →
    load < s.map.created ∧ (s.map.loads load).key = caller.key
  counts : ∀ load < s.map.created,
    (s.map.loads load).waiters = s.callers.countP (isWaitingOn load)
  small : ∀ load < s.map.created, (s.map.loads load).waiters < maxWord
  entries : ∀ name entry, s.map.entries.lookup name = some entry →
    entry.load < s.map.created ∧ (s.map.loads entry.load).key = name
  generations : ∀ load < s.map.created, (s.map.loads load).key = key →
    (s.map.loads load).generation = generation
  /-- A load of the key that can be driven is the one in the map. -/
  current : ∀ load < s.map.created, (s.map.loads load).key = key →
    (s.map.loads load).waiters ≠ 0 → (s.map.loads load).phase ≠ .finished →
    s.map.entries.lookup key = some ⟨load, generation⟩
  entryGeneration : ∀ entry, s.map.entries.lookup key = some entry →
    entry.generation = generation

/-- An entry without handles has a cleanup to come. -/
def IdleCleaned (key : Key) (generation : LoadGenerationSnapshot) (s : State) : Prop :=
  ∀ entry, s.map.entries.lookup key = some entry → (s.map.loads entry.load).waiters = 0 →
    (key, generation) ∈ s.cleanups

section Preservation

variable {key : Key} {tags : List Tag} {generation : LoadGenerationSnapshot} {s : State} {i : ℕ}
  {caller : Caller}

section

variable (h : FlightInvariant key tags generation s)
include h

variable {load : ℕ} {position : Position}

/-- A load some caller waits for is in the map's count of its handles. -/
theorem FlightInvariant.waiters_ne_zero
    (hwaits : s.Waits i load) : load < s.map.created ∧ (s.map.loads load).waiters ≠ 0 := by
  have ⟨caller, hcaller, hload⟩ := hwaits
  have hnew := (h.handles caller (mem_of_getElem? hcaller) load hload).1
  refine ⟨hnew, ?_⟩
  rw [h.counts load hnew]
  exact Nat.ne_of_gt (waits_iff_countP_pos.mp ⟨i, hwaits⟩)

section

variable (hcaller : s.callers[i]? = some caller) {taken : LoadGenerationSnapshot}
include hcaller

section

variable (hgen : caller.key = key → ∀ taken,
  (caller.moveTo position).generation = some taken → taken = generation)
include hgen

/-- A caller moves, with the generation it took. -/
theorem FlightInvariant.callers_setCaller :
    ∀ other ∈ (s.setCaller i caller position).callers, other.key = key →
      other.tags = tags ∧ ∀ taken, other.generation = some taken → taken = generation := by
  intro other hother hkey
  rcases mem_setCaller hother with hmem | rfl
  · exact h.callers other hmem hkey
  · exact ⟨(h.callers caller (mem_of_getElem? hcaller) hkey).1, hgen hkey⟩

/-- A caller without a handle moves to where it has none. -/
theorem FlightInvariant.move (hpre : caller.waitsOn = none)
    (hafter : (caller.moveTo position).waitsOn = none) :
    FlightInvariant key tags generation (s.setCaller i caller position) where
  __ := h
  callers := h.callers_setCaller hcaller hgen
  handles other hother load hload := by
    rcases mem_setCaller hother with hmem | rfl
    · exact h.handles other hmem load hload
    · simp [hafter] at hload
  counts load hload := by
    rw [countP_setCaller hcaller, isWaitingOn_of_waitsOn_eq_none hpre,
      isWaitingOn_of_waitsOn_eq_none hafter]
    exact h.counts load hload

/-- Assumes: a caller moves to or from a load that has handles, and the load's count moves with
it. -/
theorem FlightInvariant.setWaiters {waiters : ℕ}
    (hhandle : ∀ held, (caller.moveTo position).waitsOn = some held →
      held < s.map.created ∧ (s.map.loads held).key = caller.key)
    (hcounts : ∀ other < s.map.created,
      (if other = load then waiters else (s.map.loads other).waiters) =
        (s.setCaller i caller position).callers.countP (isWaitingOn other))
    (hsmall : waiters < maxWord) (hwait : (s.map.loads load).waiters ≠ 0)
    (cleanups : List (Key × LoadGenerationSnapshot)) :
    FlightInvariant key tags generation
      { s.setCaller i caller position with map := s.map.setWaiters load waiters, cleanups } := by
  refine ⟨h.snapshot, h.callers_setCaller hcaller hgen, ?_, ?_, ?_, ?_, ?_, ?_, h.entryGeneration⟩
  all_goals simp only [setWaiters_key, setWaiters_generation, setWaiters_phase, setWaiters_waiters]
  · intro other hother held hheld
    rcases mem_setCaller hother with hmem | rfl
    · exact h.handles other hmem held hheld
    · exact hhandle held hheld
  · exact hcounts
  · intro other hother
    split_ifs
    · exact hsmall
    · exact h.small other hother
  · exact h.entries
  · exact h.generations
  · intro other hother hname hcount hphase
    refine h.current other hother hname ?_ hphase
    split_ifs at hcount with hsame
    · rwa [hsame]
    · exact hcount

end

section

variable (hpre : caller.waitsOn = none) (htaken : caller.key = key → taken = generation)
include hpre htaken

/-- A caller without a handle comes to hold one on a load in the map. -/
theorem FlightInvariant.join (hentry : s.map.entries.lookup caller.key = some ⟨load, taken⟩)
    (hwait : (s.map.loads load).waiters ≠ 0) (hroom : (s.map.loads load).waiters + 1 < maxWord) :
    FlightInvariant key tags generation
      { s.setCaller i caller (.waiting load taken) with
        map := s.map.setWaiters load ((s.map.loads load).waiters + 1) } := by
  refine h.setWaiters hcaller (fun hname other hother ↦ ?_) (fun held hheld ↦ ?_) ?_ hroom hwait
    s.cleanups
  · cases hother
    exact htaken hname
  · cases hheld
    exact h.entries caller.key _ hentry
  · intro other hother
    have hmoved := countP_setCaller hcaller (.waiting load taken) (isWaitingOn other)
    rw [isWaitingOn_of_waitsOn_eq_none hpre, isWaitingOn_waiting] at hmoved
    rw [hmoved, ← h.counts other hother]
    by_cases hsame : other = load <;> simp [hsame]

/-- A caller without a handle puts a load of its own in the map, over none or over one that has no
handle left. -/
theorem FlightInvariant.insert
    (hrepl : ∀ load, s.map.entries.lookup caller.key = some ⟨load, taken⟩ →
      (s.map.loads load).waiters = 0) :
    FlightInvariant key tags generation
      { s.setCaller i caller (.waiting s.map.created taken) with
        map := s.map.insertLoad caller.key taken } := by
  have hold {load : ℕ} (hload : load < s.map.created) :=
    insertLoad_loads_of_lt hload caller.key taken
  have hnew := insertLoad_loads_created s.map caller.key taken
  have hcases {load : ℕ} (hload : load < (s.map.insertLoad caller.key taken).created) :
      load < s.map.created ∨ load = s.map.created := Nat.lt_succ_iff_lt_or_eq.mp hload
  refine ⟨h.snapshot, h.callers_setCaller hcaller fun hname other hother ↦ ?_, ?_, ?_, ?_, ?_, ?_,
    ?_, ?_⟩
  · cases hother
    exact htaken hname
  · intro other hother held hheld
    rcases mem_setCaller hother with hmem | rfl
    · obtain ⟨hlt, hkey⟩ := h.handles other hmem held hheld
      exact ⟨Nat.lt_succ_of_lt hlt, by rw [hold hlt]; exact hkey⟩
    · cases hheld
      exact ⟨Nat.lt_succ_self _, by rw [hnew]; rfl⟩
  · intro load hload
    have hmoved := countP_setCaller hcaller (.waiting s.map.created taken) (isWaitingOn load)
    rw [isWaitingOn_of_waitsOn_eq_none hpre, isWaitingOn_waiting] at hmoved
    refine Eq.trans ?_ hmoved.symm
    rcases hcases hload with hlt | rfl
    · simpa [hold hlt, Nat.ne_of_lt hlt] using h.counts load hlt
    · -- nobody waited for the new load before
      have hnone : s.callers.countP (isWaitingOn s.map.created) = 0 := by
        rw [countP_eq_zero]
        intro other hmem hwaits
        have hwaits : other.waitsOn = some s.map.created := by
          simpa [isWaitingOn] using hwaits
        exact Nat.lt_irrefl _ (h.handles other hmem _ hwaits).1
      simp [hnew, hnone]
  · intro load hload
    rcases hcases hload with hlt | rfl
    · rw [hold hlt]
      exact h.small load hlt
    · rw [hnew]
      change 1 < maxWord
      decide
  · intro name entry hlook
    obtain ⟨hname, rfl⟩ | hlook := KeyMap.of_lookup_insert hlook
    · exact ⟨Nat.lt_succ_self _, by rw [hnew]; exact hname.symm⟩
    · obtain ⟨hlt, hkey⟩ := h.entries name entry hlook
      exact ⟨Nat.lt_succ_of_lt hlt, by rw [hold hlt]; exact hkey⟩
  · intro load hload hname
    rcases hcases hload with hlt | rfl
    · rw [hold hlt] at hname ⊢
      exact h.generations load hlt hname
    · rw [hnew] at hname ⊢
      exact htaken hname
  · intro load hload hname hcount hphase
    change (s.map.entries.insert caller.key ⟨s.map.created, taken⟩).lookup key = _
    rw [KeyMap.lookup_insert_apply]
    rcases hcases hload with hlt | rfl
    · rw [hold hlt] at hname hcount hphase
      have hcur := h.current load hlt hname hcount hphase
      split_ifs with hkey
      · -- the load replaced would be this one, which has a handle left
        rw [htaken hkey.symm, ← hkey] at hrepl
        exact (hcount (hrepl load hcur)).elim
      · exact hcur
    · rw [hnew] at hname
      rw [if_pos hname.symm, htaken hname]
  · intro entry hlook
    obtain ⟨hkey, rfl⟩ | hlook := KeyMap.of_lookup_insert hlook
    · exact htaken hkey.symm
    · exact h.entryGeneration entry hlook

end

/-- A caller drops its handle. -/
theorem FlightInvariant.drop (hwaits : caller.waitsOn = some load)
    (cleanups : List (Key × LoadGenerationSnapshot)) :
    FlightInvariant key tags generation
      { s.setCaller i caller .returned with
        map := s.map.setWaiters load ((s.map.loads load).waiters - 1)
        cleanups } := by
  obtain ⟨hload, hwait⟩ := h.waiters_ne_zero ⟨caller, hcaller, hwaits⟩
  refine h.setWaiters hcaller (fun _ _ hother ↦ ?_) (fun _ hheld ↦ ?_) ?_
    (Nat.lt_of_le_of_lt (Nat.sub_le _ 1) (h.small load hload)) hwait cleanups
  · cases hother
  · cases hheld
  · intro other hother
    have hmoved := countP_setCaller hcaller .returned (isWaitingOn other)
    have hheld : caller.isWaitingOn other = decide (other = load) := by
      rw [isWaitingOn, hwaits]
      by_cases hsame : other = load <;> simp [hsame, Ne.symm]
    have hafter : (caller.moveTo .returned).waitsOn = none := rfl
    rw [isWaitingOn_of_waitsOn_eq_none hafter, hheld] at hmoved
    rw [hmoved, ← h.counts other hother]
    by_cases hsame : other = load <;> simp [hsame]

end

/-- A load comes to a phase that leaves it unfinished if it was, with the same entries. -/
theorem FlightInvariant.setPhase (hphase : (s.map.loads load).phase ≠ .finished)
    (phase : LoadPhase) :
    FlightInvariant key tags generation { s with map := s.map.setPhase load phase } := by
  refine ⟨h.snapshot, h.callers, ?_, ?_, ?_, ?_, ?_, ?_, h.entryGeneration⟩
  all_goals simp only [setPhase_key, setPhase_generation, setPhase_waiters, setPhase_phase]
  · exact h.handles
  · exact h.counts
  · exact h.small
  · exact h.entries
  · exact h.generations
  · intro other hother hname hcount hunf
    refine h.current other hother hname hcount ?_
    split_ifs at hunf with hsame
    · rwa [hsame]
    · exact hunf

/-- Entries leave the map, none of them one of a load of the key that can be driven. -/
theorem FlightInvariant.remove {map : InFlightMap} (cleanups : List (Key × LoadGenerationSnapshot))
    (hloads : map.loads = s.map.loads ∧ map.created = s.map.created)
    (hsubset : ∀ name entry, map.entries.lookup name = some entry →
      s.map.entries.lookup name = some entry)
    (hkept : ∀ load < s.map.created, (s.map.loads load).key = key → (s.map.loads load).waiters ≠ 0 →
      (s.map.loads load).phase ≠ .finished → map.entries.lookup key = s.map.entries.lookup key) :
    FlightInvariant key tags generation { s with map, cleanups } := by
  obtain ⟨entries, loads, created⟩ := map
  obtain ⟨hloads, hnew⟩ := hloads
  subst hloads hnew
  refine { h with entries := ?_, current := ?_, entryGeneration := ?_ }
  · intro name entry hlook
    exact h.entries name entry (hsubset name entry hlook)
  · intro load hload hname hcount hphase
    exact (hkept load hload hname hcount hphase).trans (h.current load hload hname hcount hphase)
  · intro entry hlook
    exact h.entryGeneration entry (hsubset key entry hlook)

/-- A load some caller waits for removes its entry and is finished. -/
theorem FlightInvariant.finish
    (hwaits : s.Waits i load) (hphase : (s.map.loads load).phase = .finishing) :
    FlightInvariant key tags generation
      { s with
        map := (s.map.removeIfGenerationMatches (s.map.loads load).key
          (s.map.loads load).generation).setPhase load .finished } := by
  obtain ⟨hnew, hwait⟩ := h.waiters_ne_zero hwaits
  have hunf : (s.map.loads load).phase ≠ .finished := by simp [hphase]
  have hrem :=
    s.map.removeIfGenerationMatches_loads (s.map.loads load).key (s.map.loads load).generation
  refine (h.setPhase hunf .finished).remove s.cleanups ⟨?_, hrem.2⟩
    (fun name entry ↦ InFlightMap.lookup_of_lookup_removeIfGenerationMatches) ?_
  · simp only [InFlightMap.setPhase, hrem.1]
  · simp only [setPhase_key, setPhase_waiters, setPhase_phase]
    intro other hother hname hcount hother'
    split_ifs at hother' with hsame
    · exact (hother' rfl).elim
    · refine lookup_removeIfGenerationMatches_of_ne fun hkey ↦ hsame ?_
      -- two loads of the key that can be driven are both the one in the map
      have hentry := h.current load hnew hkey.symm hwait hunf
      have hentry' := h.current other hother hname hcount hother'
      rw [hentry] at hentry'
      cases hentry'
      rfl

theorem FlightInvariant.cleanup (name : Key) (taken : LoadGenerationSnapshot) :
    FlightInvariant key tags generation
      { s with
        map := s.map.removeIfIdle name taken
        cleanups := s.cleanups.erase (name, taken) } := by
  refine h.remove _ (s.map.removeIfIdle_loads ..) ?_ ?_
  · intro other entry hlook
    rcases s.map.lookup_removeIfIdle other name taken with heq | ⟨-, hnone, -⟩
    · rwa [heq] at hlook
    · simp [hnone] at hlook
  · intro load hload hname hcount hphase
    rcases s.map.lookup_removeIfIdle key name taken with heq | ⟨-, -, entry, hentry, hidle⟩
    · exact heq
    · rw [h.current load hload hname hcount hphase] at hentry
      cases hentry
      exact (hcount hidle).elim

theorem FlightInvariant.call {name : Key} {passed : List Tag} (htags : name = key → passed = tags) :
    FlightInvariant key tags generation
      { s with callers := s.callers ++ [{ key := name, tags := passed }] } := by
  refine { h with callers := ?_, handles := ?_, counts := ?_ }
  · exact forall_mem_append.mpr
      ⟨h.callers, forall_mem_singleton.mpr fun hname ↦ ⟨htags hname, nofun⟩⟩
  · exact forall_mem_append.mpr ⟨h.handles, forall_mem_singleton.mpr nofun⟩
  · intro load hload
    rw [countP_append, h.counts load hload]
    rfl

theorem FlightInvariant.index {op : IndexOp} (hop : op.bumps = false) :
    FlightInvariant key tags generation { s with index := op.apply s.index } := by
  refine { h with snapshot := ?_ }
  have hstate := IndexOp.generationState_apply_of_not_bumps s.index hop
  simp only [TagIndex.generationState, Prod.mk.injEq] at hstate
  obtain ⟨htag, hkey, hglobal⟩ := hstate
  have hsnap := h.snapshot
  simp only [TagIndex.snapshot, TagIndex.tagGeneration, TagIndex.keyGeneration] at hsnap ⊢
  rwa [htag, hkey, hglobal]

end

variable {s' : State} {label : Label}

theorem FlightInvariant.transition (h : FlightInvariant key tags generation s)
    (htags : SameTags key tags s label) (ht : Transition s label s') :
    FlightInvariant key tags generation s' := by
  have hgen {i : ℕ} {caller : Caller} {taken : LoadGenerationSnapshot}
      (hcaller : s.callers[i]? = some caller) (htaken : caller.generation = some taken)
      (hkey : caller.key = key) : taken = generation :=
    (h.callers caller (mem_of_getElem? hcaller) hkey).2 taken htaken
  cases ht with
  | call hlabel =>
    subst hlabel
    exact h.call htags
  | index hop => exact h.index hop
  | move hcaller hpre hafter htaken =>
    refine h.move hcaller (fun hkey taken hafter ↦ ?_) hpre hafter
    rcases htaken taken hafter with hpre | rfl
    · exact hgen hcaller hpre hkey
    · rw [hkey, (h.callers _ (mem_of_getElem? hcaller) hkey).1]
      exact h.snapshot
  | join hcaller hpre htaken hentry hwait hroom =>
    exact h.join hcaller hpre (hgen hcaller htaken) hentry hwait hroom
  | insert hcaller hpre htaken hnone =>
    refine h.insert hcaller hpre (hgen hcaller htaken) fun load hentry ↦ ?_
    rcases getCurrent_eq_none hnone hentry with hzero | hfull
    · exact hzero
    · exact (Nat.ne_of_lt (h.small load (h.entries _ _ hentry).1) hfull).elim
  | drop hcaller hpos => exact h.drop hcaller (by rw [waitsOn, hpos]) _
  | wait => exact h
  | loaded hphase => exact h.setPhase (by simp [hphase]) .finishing
  | finished hwaits hphase => exact h.finish hwaits hphase
  | cleanup => exact h.cleanup _ _

/-- Assumes: the last handle of a load is dropped inside a runtime. Idle entries keep their
cleanup. -/
theorem IdleCleaned.transition (hidle : IdleCleaned key generation s)
    (h : FlightInvariant key tags generation s) (hdrops : DropsInRuntime s label)
    (ht : Transition s label s') : IdleCleaned key generation s' := by
  intro entry hentry hzero
  cases ht with
  | call | index | move | wait => exact hidle entry hentry hzero
  | join =>
    rw [setWaiters_waiters] at hzero
    split_ifs at hzero
    exact hidle entry hentry hzero
  | @insert _ caller taken =>
    change (Function.update s.map.loads s.map.created _ entry.load).waiters = 0 at hzero
    obtain ⟨hkey, rfl⟩ | hentry := KeyMap.of_lookup_insert hentry
    · simp [Function.update_self] at hzero
    · rw [Function.update_of_ne (Nat.ne_of_lt (h.entries key entry hentry).1)] at hzero
      exact hidle entry hentry hzero
  | @drop _ caller load taken _ hcaller hposition hlabel =>
    have hmem := mem_of_getElem? hcaller
    have hload : caller.waitsOn = some load := by rw [waitsOn, hposition]
    rw [setWaiters_waiters] at hzero
    split_ifs at hzero with hsame
    · -- the last handle: the cleanup spawned is one for this entry
      have hlast : (s.map.loads load).waiters = 1 := by
        have hpos := (h.waiters_ne_zero ⟨caller, hcaller, hload⟩).2
        omega
      have hkey : caller.key = key := by
        rw [← (h.handles caller hmem load hload).2, ← hsame]
        exact (h.entries key entry hentry).2
      have htaken : taken = generation :=
        (h.callers caller hmem hkey).2 taken (by rw [Caller.generation, hposition])
      rw [hlast, hlabel hdrops, hkey, htaken]
      exact mem_cons_self
    · have hold := hidle entry hentry hzero
      change (key, generation) ∈ ite _ _ _
      split_ifs
      · exact mem_cons_of_mem _ hold
      · exact hold
  | loaded =>
    rw [setPhase_waiters] at hzero
    exact hidle entry hentry hzero
  | @finished =>
    rw [setPhase_waiters, (s.map.removeIfGenerationMatches_loads _ _).1] at hzero
    exact hidle entry (InFlightMap.lookup_of_lookup_removeIfGenerationMatches hentry) hzero
  | @cleanup name taken =>
    rw [(s.map.removeIfIdle_loads _ _).1] at hzero
    rcases s.map.lookup_removeIfIdle key name taken with heq | ⟨-, hnone, -⟩
    · have hentry' := hentry
      rw [heq] at hentry'
      refine (mem_erase_of_ne ?_).mpr (hidle entry hentry' hzero)
      rintro ⟨rfl, rfl⟩
      have hown : s.map.entries.lookup key = some ⟨entry.load, generation⟩ := by
        rw [hentry', ← h.entryGeneration entry hentry']
      have hgone := lookup_removeIfIdle_of_idle hown hzero
      exact Option.some_ne_none _ (hentry.symm.trans hgone)
    · simp [hnone] at hentry

section

variable (h : FlightInvariant key tags generation s)
include h

/-- A load with a handle left is one that some caller waits for. -/
theorem FlightInvariant.joinsLive : s.JoinsLive := by
  intro label s' hstep i load hnew hpre hafter
  -- only a caller that joins, inserts or moves can come to wait, and only one that joins does so on
  -- a load that was there before
  cases transition_of_step hstep with
  | call =>
    obtain ⟨caller, hcaller, hload⟩ := hafter
    rcases Nat.lt_or_ge i s.callers.length with hi | hi
    · rw [List.getElem?_append_left hi] at hcaller
      exact (hpre ⟨caller, hcaller, hload⟩).elim
    · rw [List.getElem?_append_right hi] at hcaller
      obtain rfl := mem_singleton.mp (mem_of_getElem? hcaller)
      cases hload
  | move _ _ hmoved =>
    rcases waits_setCaller hafter with hold | ⟨-, hload⟩
    · exact (hpre hold).elim
    · simp [hmoved] at hload
  | join _ _ _ _ hwait =>
    rcases waits_setCaller hafter with hold | ⟨rfl, hload⟩
    · exact (hpre hold).elim
    · cases hload
      rw [h.counts load hnew] at hwait
      obtain ⟨other, hother⟩ := waits_iff_countP_pos.mpr (Nat.pos_of_ne_zero hwait)
      exact ⟨other, fun hsame ↦ hpre (hsame ▸ hother), hother⟩
  | insert =>
    rcases waits_setCaller hafter with hold | ⟨-, hload⟩
    · exact (hpre hold).elim
    · cases hload
      exact (Nat.lt_irrefl _ hnew).elim
  | drop =>
    rcases waits_setCaller hafter with hold | ⟨-, hload⟩
    · exact (hpre hold).elim
    · cases hload
  | index | wait | loaded | finished | cleanup => exact (hpre hafter).elim

/-- Two loads that are driven are both the one in the map. -/
theorem FlightInvariant.oneDriven : s.OneDriven key := by
  have hcur {load : ℕ} (hdriven : s.Driven key load) :
      s.map.entries.lookup key = some ⟨load, generation⟩ := by
    obtain ⟨hkey, hphase, i, hwaits⟩ := hdriven
    obtain ⟨hnew, hwait⟩ := h.waiters_ne_zero hwaits
    exact h.current load hnew hkey hwait hphase
  intro first second hfirst hsnd
  have hentry := hcur hfirst
  rw [hcur hsnd] at hentry
  cases hentry
  rfl

theorem FlightInvariant.noLeak (hidle : IdleCleaned key generation s) : s.NoLeak key := by
  intro hhandles hcleanups
  by_contra hsome
  obtain ⟨entry, hentry⟩ := Option.ne_none_iff_exists'.mp hsome
  obtain ⟨hnew, hkey⟩ := h.entries key entry hentry
  refine hcleanups generation (hidle entry hentry ?_)
  rw [h.counts entry.load hnew]
  by_contra hcount
  obtain ⟨i, hwaits⟩ := waits_iff_countP_pos.mpr (Nat.pos_of_ne_zero hcount)
  exact hhandles i entry.load hwaits hkey

end

end Preservation

/-! ### The theorem -/

theorem flightInvariant_initial (key : Key) (tags : List Tag) (index : TagIndex) :
    FlightInvariant key tags (index.snapshot key tags) { index } := by
  constructor <;> simp

/-- Assumes: a run in which all calls of `key` pass `tags`. At most one load of the key is driven,
callers join only loads that some caller still waits for, and if handles are dropped inside a
runtime, no entry is left once every handle is dropped and the cleanups have run. -/
theorem singleFlight (key : Key) (tags : List Tag) (index : TagIndex) (labels : List Label)
    (s : State) (hrun : run step { index } labels = some s)
    (htags : Along step (SameTags key tags) { index } labels) :
    s.OneDriven key ∧ s.JoinsLive ∧
      (Along step DropsInRuntime { index } labels → s.NoLeak key) := by
  have hinv : FlightInvariant key tags (index.snapshot key tags) s :=
    run_invariant (fun s label s' hC hI hstep ↦ hI.transition hC (transition_of_step hstep))
      (flightInvariant_initial ..) htags hrun
  refine ⟨hinv.oneDriven, hinv.joinsLive, fun hdrops ↦ ?_⟩
  have hboth : FlightInvariant key tags (index.snapshot key tags) s ∧
      IdleCleaned key (index.snapshot key tags) s := by
    refine run_invariant (I := fun s ↦ FlightInvariant key tags (index.snapshot ..) s ∧
      IdleCleaned key (index.snapshot ..) s) (fun s label s' hC hI hstep ↦ ?_)
      ⟨flightInvariant_initial .., by simp [IdleCleaned]⟩ (htags.and hdrops) hrun
    have ht := transition_of_step hstep
    exact ⟨hI.1.transition hC.1 ht, hI.2.transition hI.1 hC.2 ht⟩
  exact hboth.1.noLeak hboth.2

/-- Two calls of one key: the second joins the load of the first, whose caller is cancelled; the
second drives the load to its end. -/
def joinedLoadLabels : List Label :=
  [.call "user:1" ["users"], .call "user:1" ["users"], .step 0 true, .step 1 true, .step 0 true,
    .step 0 true, .step 0 true, .step 1 true, .drive 0 false, .cancel 0 true, .drive 1 true,
    .drive 1 true, .finish 1 true, .cleanup "user:1" ⟨0, "user:1", 0, [("users", 0)]⟩]

theorem singleFlight_joinedLoadLabels :
    ∃ s, run step { index := {} } joinedLoadLabels = some s ∧ s.OneDriven "user:1" ∧
      s.JoinsLive ∧ s.NoLeak "user:1" := by
  obtain ⟨hone, hjoins, hleak⟩ := singleFlight "user:1" ["users"] {} joinedLoadLabels _ rfl
    (along_of_forall_mem (by simp [joinedLoadLabels, SameTags]) _)
  exact ⟨_, rfl, hone, hjoins,
    hleak (along_of_forall_mem (by simp [joinedLoadLabels, DropsInRuntime]) _)⟩

/-- A caller that has put its load in the map is cancelled outside a runtime. -/
def dropOutsideRuntimeLabels : List Label :=
  [.call "user:1" ["users"], .step 0 true, .step 0 true, .step 0 true, .step 0 true,
    .cancel 0 false]

/-- No handle is left and no cleanup is to run, but the entry is still there. -/
theorem noLeak_lost_outside_runtime :
    ∃ s, run step { index := {} } dropOutsideRuntimeLabels = some s ∧
      Along step (SameTags "user:1" ["users"]) { index := {} } dropOutsideRuntimeLabels ∧
      ¬ s.NoLeak "user:1" := by
  refine ⟨_, rfl, along_of_forall_mem (by simp [dropOutsideRuntimeLabels, SameTags]) _,
    fun hleak ↦ ?_⟩
  have hnone := hleak ?_ (by intro generation hmem; cases hmem)
  · cases hnone
  · rintro i load ⟨caller, hcaller, hload⟩
    obtain rfl := mem_singleton.mp (mem_of_getElem? hcaller)
    cases hload

end HydraCache.Local.InFlight
