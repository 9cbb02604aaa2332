import HydraCache.Local.LoadBreaker
import HydraCache.Local.SingleFlight
import Mathlib.Data.Finset.Card

/-!
# Probe loads

Callers of `shared_load` ask the load breaker before they start a load, and the load reports its
result to the breaker when it has one. A load is driven by the callers that wait for it. A caller
can be dropped at any of its await points, and a load nobody waits for any more is never driven
again.

A key is rejected while it is half-open. `probe_outstanding` says that a half-open key has a load to
come or a load that is driven, and that over an endless run every key is let through again and
again, as long as no step takes the last such load of a half-open key away. Two kinds of step do
(`probe_lost`): the last caller of the probe is dropped before the load has reported, or the caller
that was let through as the probe joins a load of the key that has already reported. The key is
half-open from then on, and nothing that happens later lets it through.

`change_of_step` sorts the steps by what they do to callers, loads and records. For the endless runs
the callers let through and the loads not reported yet are counted (`pending`): while a key is
rejected the count never rises, and each report lowers it.

Scope. The loader, the store of its result and the report are one step. Generations advance at any
time.
-/

set_option autoImplicit false

namespace HydraCache.Local.LoadProbe

open Lib Local.InFlight Local.LoadBreakerEntries InFlightMap List
  Option InFlight

/-! ### Callers, loads and records -/

/-- The callers with the map of loads, the records of the breaker, and the clock. -/
structure Registry where
  calls : InFlight.State
  breakers : LoadBreakerEntries := ∅
  now : ℕ := 0

inductive Event where
  | call (key : Key) (tags : List Tag)
  | index (op : IndexOp)
  | elapse (duration : ℕ)
  | advance (caller : ℕ)
  | poll (caller : ℕ)
  | report (caller : ℕ) (success : Bool) (walk : List Key)
  | finish (caller : ℕ) (inRuntime : Bool)
  | cancel (caller : ℕ) (inRuntime : Bool)
  | cleanup (key : Key) (generation : LoadGenerationSnapshot)

namespace Registry

def initial : Registry := { calls := { index := {} } }

def withCalls (s : Registry) (calls : InFlight.State) : Registry := { s with calls }

/-- What the breaker says to a caller that is about to start a load. -/
def ask (policy : LoadBreakerPolicy) (s : Registry) (caller : Caller) :
    LoadBreakerDecision × LoadBreakerEntries :=
  match caller.position with
  | .admitting _ => beforeLoad policy s.breakers s.now caller.key
  | _ => (.allow, s.breakers)

/-- The load has its result and reports it. -/
def report (policy : LoadBreakerPolicy) (s : Registry) (load : ℕ) (success : Bool)
    (walk : List Key) :
    Registry :=
  { s with
    calls := { s.calls with map := s.calls.map.setPhase load .finishing }
    breakers := afterLoadResult policy s.breakers s.now walk (s.calls.map.loads load).key success }

/-- One step. The records are walked in some order when a report needs room. -/
def step (policy : LoadBreakerPolicy) (s : Registry) : Event → Option Registry
  | .call key tags => (InFlight.step s.calls (.call key tags)).map s.withCalls
  | .index op => some (s.withCalls { s.calls with index := op.apply s.calls.index })
  | .elapse duration => some { s with now := s.now + duration }
  | .advance i => s.calls.callers[i]?.bind fun caller ↦
    let (decision, breakers) := s.ask policy caller
    (stepCaller s.calls i caller (decision = .allow)).map fun calls ↦ { s with calls, breakers }
  | .poll i => s.calls.callers[i]?.bind fun caller ↦ caller.waitsOn.bind fun load ↦
    (driveLoad s.calls load false).map s.withCalls
  | .report i success walk => s.calls.callers[i]?.bind fun caller ↦ caller.waitsOn.bind fun load ↦
    if (s.calls.map.loads load).phase = .loading ∧ walk.Perm s.breakers.keys then
      some (s.report policy load success walk)
    else none
  | .finish i inRuntime => (InFlight.step s.calls (.finish i inRuntime)).map s.withCalls
  | .cancel i inRuntime => (InFlight.step s.calls (.cancel i inRuntime)).map s.withCalls
  | .cleanup key generation => (InFlight.step s.calls (.cleanup key generation)).map s.withCalls

/-- The key a load reports on in this step. -/
def reported (s : Registry) : Event → Option Key
  | .report i _ _ => (s.calls.callers[i]?.bind Caller.waitsOn).map fun load ↦
    (s.calls.map.loads load).key
  | _ => none

end Registry

open Registry

/-! ### Outstanding loads -/

/-- The caller was let through and has its load to start, or waits for one that has not reported. -/
def drives (map : InFlightMap) (key : Key) (caller : Caller) : Bool :=
  match caller.position with
  | .inserting _ => caller.key = key
  | .waiting load _ => (map.loads load).key = key ∧ (map.loads load).phase = .loading
  | _ => false

/-- A load of the key is to come or is driven. -/
def Outstanding (calls : InFlight.State) (key : Key) : Prop :=
  ∃ caller ∈ calls.callers, drives calls.map key caller = true

/-- The generation with which a caller that was let through looks for a load in the map. -/
def admission (caller : Caller) : Option LoadGenerationSnapshot :=
  match caller.position with
  | .inserting generation => some generation
  | _ => none

/-- The step does not take the last outstanding load of a half-open key away: a caller that is
dropped leaves another one that drives a load of the key, and a caller that was let through does not
join a load that has reported. -/
def KeepsProbe (s : Registry) : Event → Prop
  | .cancel i _ => ∀ caller ∈ s.calls.callers[i]?, ∀ key ∈ s.breakers.keys,
    halfOpen s.breakers key = true → drives s.calls.map key caller = true →
      ∃ other ∈ s.calls.callers.eraseIdx i, drives s.calls.map key other = true
  | .advance i => ∀ caller ∈ s.calls.callers[i]?, ∀ generation ∈ admission caller,
    halfOpen s.breakers caller.key = true →
      ∀ joined ∈ s.calls.map.getCurrent caller.key generation,
        (s.calls.map.loads joined.1).phase = .loading
  | _ => True

instance KeepsProbe.decidable (s : Registry) : ∀ event, Decidable (KeepsProbe s event)
  | .cancel .. => inferInstanceAs (Decidable (∀ caller ∈ _, ∀ key ∈ _, _ → _ → ∃ other ∈ _, _))
  | .advance _ => inferInstanceAs (Decidable (∀ caller ∈ _, ∀ generation ∈ _, _ → ∀ joined ∈ _, _))
  | .call .. | .index _ | .elapse _ | .poll _ | .report .. | .finish .. | .cleanup .. =>
    .isTrue trivial

/-! ### What a step does -/

/-- The loads are those that were there, with those not reported yet the same, and no load is new in
the map. -/
structure Frame (before after : InFlightMap) : Prop where
  created : after.created = before.created
  key : ∀ load, (after.loads load).key = (before.loads load).key
  loading : ∀ load, (after.loads load).phase = .loading ↔ (before.loads load).phase = .loading
  entries : ∀ name entry, after.entries.lookup name = some entry →
    before.entries.lookup name = some entry

/-- The caller neither was let through nor waits. -/
def silent : Position → Bool
  | .snapshotting | .looking _ | .admitting _ | .returned => true
  | .inserting _ | .waiting .. => false

section

variable (policy : LoadBreakerPolicy) (s : Registry) (event : Event)

/-- The steps by what they do to callers, loads and records. -/
inductive Change : Registry → Prop where
  /-- Callers come, the map is cleaned up, time passes. -/
  | frame {calls now} (fresh : List Caller)
      (hcallers : calls.callers = s.calls.callers ++ fresh)
      (hfresh : ∀ caller ∈ fresh, silent caller.position = true)
      (hframe : Frame s.calls.map calls.map) (hreported : s.reported event = none) :
      Change { s with calls, now }
  | move {i caller position} (hcaller : s.calls.callers[i]? = some caller)
      (hbefore : silent caller.position = true) (hafter : silent position = true)
      (hreported : s.reported event = none) :
      Change (s.withCalls (s.calls.setCaller i caller position))
  /-- A caller asks the breaker. -/
  | ask {i caller generation}
      (hcaller : s.calls.callers[i]? = some caller)
        (hposition : caller.position = .admitting generation)
      (hreported : s.reported event = none) :
      Change
        { s with
          calls := s.calls.setCaller i caller
            (if (beforeLoad policy s.breakers s.now caller.key).1 = .allow then
              .inserting generation
              else .returned)
          breakers := (beforeLoad policy s.breakers s.now caller.key).2 }
  /-- A caller joins a load in the map. -/
  | join {i caller load count generation}
      (hcaller : s.calls.callers[i]? = some caller)
      (hposition : caller.position = .looking generation ∨ caller.position = .inserting generation)
      (hentry : s.calls.map.entries.lookup caller.key = some ⟨load, generation⟩)
      (hprobe : KeepsProbe s event → caller.position = .inserting generation →
        halfOpen s.breakers caller.key = true → (s.calls.map.loads load).phase = .loading)
      (hreported : s.reported event = none) :
      Change (s.withCalls
        { s.calls.setCaller i caller (.waiting load generation) with
          map := s.calls.map.setWaiters load count })
  /-- A caller that was let through puts its load in the map. -/
  | insert {i caller generation}
      (hcaller : s.calls.callers[i]? = some caller)
      (hposition : caller.position = .inserting generation) (hreported : s.reported event = none) :
      Change (s.withCalls
        { s.calls.setCaller i caller (.waiting s.calls.map.created generation) with
          map := s.calls.map.insertLoad caller.key generation })
  | report {load success walk}
      (hwaits : ∃ caller ∈ s.calls.callers, caller.waitsOn = some load)
      (hphase : (s.calls.map.loads load).phase = .loading)
      (hreported : s.reported event = some (s.calls.map.loads load).key) :
      Change (s.report policy load success walk)
  /-- A caller leaves its load or gives up the one it was let through for. -/
  | leave {i caller calls}
      (hcaller : s.calls.callers[i]? = some caller)
      (hcallers : calls.callers = (s.calls.setCaller i caller .returned).callers)
      (hframe : Frame s.calls.map calls.map)
      (hprobe : KeepsProbe s event → ∀ key, halfOpen s.breakers key = true →
        drives s.calls.map key caller = true →
          ∃ j other, j ≠ i ∧ s.calls.callers[j]? = some other ∧ drives s.calls.map key other = true)
      (hreported : s.reported event = none) :
      Change (s.withCalls calls)

end

theorem Frame.refl (map : InFlightMap) : Frame map map :=
  ⟨rfl, fun _ ↦ rfl, fun _ ↦ Iff.rfl, fun _ _ h ↦ h⟩

theorem frame_setWaiters (map : InFlightMap) (load count : ℕ) :
    Frame map (map.setWaiters load count) where
  created := rfl
  key other := setWaiters_key ..
  loading other := by rw [setWaiters_phase]
  entries _ _ h := h

theorem frame_removeIfIdle (map : InFlightMap) (key : Key) (generation : LoadGenerationSnapshot) :
    Frame map (map.removeIfIdle key generation) := by
  obtain ⟨hloads, hnew⟩ := removeIfIdle_loads map key generation
  refine ⟨hnew, fun load ↦ by rw [hloads], fun load ↦ by rw [hloads], fun name entry h ↦ ?_⟩
  rcases lookup_removeIfIdle map name key generation with hsame | ⟨_, hnone, _⟩
  · rwa [hsame] at h
  · simp [hnone] at h

/-- A load that has reported removes its entry. -/
theorem frame_removeIfGenerationMatches {map : InFlightMap} {load : ℕ} (key : Key)
    (generation : LoadGenerationSnapshot) (hphase : (map.loads load).phase = .finishing) :
    Frame map ((map.removeIfGenerationMatches key generation).setPhase load .finished) := by
  obtain ⟨hloads, hnew⟩ := removeIfGenerationMatches_loads map key generation
  refine ⟨hnew, fun other ↦ ?_, fun other ↦ ?_, fun name entry h ↦ ?_⟩
  · rw [setPhase_key, hloads]
  · rw [setPhase_phase, hloads]
    split_ifs with hother
    · rw [hother, hphase]
      exact iff_of_false nofun nofun
    · exact Iff.rfl
  · exact lookup_of_lookup_removeIfGenerationMatches h

variable {policy : LoadBreakerPolicy} {s s' : Registry} {event : Event} {i load : ℕ}
  {calls after : InFlight.State} {position : Position} {key : Key}
  {generation : LoadGenerationSnapshot} {caller : Caller} {other : Caller}

/-- A caller that joins a load through `get_current`. -/
theorem change_of_holdHandle {joined : ℕ × InFlightMap}
    (hcaller : s.calls.callers[i]? = some caller)
    (hpos : caller.position = .looking generation ∨ caller.position = .inserting generation)
    (hjoin : s.calls.map.getCurrent caller.key generation = some joined)
    (h : s.calls.holdHandle i caller generation joined = some calls) :
    Change policy s (.advance i) (s.withCalls calls) := by
  obtain ⟨load, map⟩ := joined
  obtain ⟨hentry, _, rfl⟩ := getCurrent_eq_some hjoin
  unfold State.holdHandle at h
  split_ifs at h
  cases h
  refine .join hcaller hpos hentry (fun hkeeps hins hhalf ↦ ?_) rfl
  exact hkeeps caller hcaller generation (by rw [admission, hins]; rfl) hhalf _ hjoin

theorem change_of_advance (h : s.step policy (.advance i) = some s') :
    Change policy s (.advance i) s' := by
  obtain ⟨caller, hcaller, hadv⟩ := bind_eq_some_iff.mp h
  obtain ⟨calls, hcalls, rfl⟩ := map_eq_some_iff.mp hadv
  unfold stepCaller at hcalls
  cases hpos : caller.position with
  | snapshotting =>
    rw [hpos] at hcalls
    cases hcalls
    exact .move hcaller (by rw [hpos]; rfl) rfl rfl
  | looking =>
    rw [hpos] at hcalls
    dsimp only at hcalls
    split at hcalls
    · rename_i joined hjoin
      exact change_of_holdHandle hcaller (.inl hpos) hjoin hcalls
    · cases hcalls
      exact .move hcaller (by rw [hpos]; rfl) rfl rfl
  | admitting =>
    rw [hpos] at hcalls
    cases hcalls
    have hask : Change policy s (.advance i) _ := .ask hcaller hpos rfl
    simpa using hask
  | inserting =>
    rw [hpos] at hcalls
    dsimp only at hcalls
    unfold insertOrGetCurrent at hcalls
    split at hcalls
    · rename_i joined hjoin
      exact change_of_holdHandle hcaller (.inr hpos) hjoin hcalls
    · unfold State.holdHandle at hcalls
      split_ifs at hcalls
      cases hcalls
      exact .insert hcaller hpos rfl
  | waiting | returned => simp [hpos] at hcalls

theorem change_of_leave {inRuntime : Bool} (hcaller : s.calls.callers[i]? = some caller)
    (hprobe : KeepsProbe s event → ∀ key, halfOpen s.breakers key = true →
      drives s.calls.map key caller = true → ∃ j other, j ≠ i ∧ s.calls.callers[j]? = some other ∧
      drives s.calls.map key other = true) (hrep : s.reported event = none) :
    Change policy s event (s.withCalls (s.calls.leave i caller inRuntime)) := by
  refine .leave hcaller ?_ ?_ hprobe hrep
  · unfold State.leave
    split <;> rfl
  · unfold State.leave
    split
    · exact frame_setWaiters ..
    · exact Frame.refl _

theorem change_of_step (h : s.step policy event = some s') : Change policy s event s' := by
  cases event with
  | call key tags =>
    cases h
    refine .frame [{ key, tags }] rfl (fun caller hcaller ↦ ?_) (Frame.refl _) rfl
    rw [mem_singleton.mp hcaller]
    rfl
  | index | elapse =>
    cases h
    exact .frame [] (append_nil _).symm nofun (Frame.refl _) rfl
  | advance => exact change_of_advance h
  | poll =>
    obtain ⟨caller, hcaller, hwait⟩ := bind_eq_some_iff.mp h
    obtain ⟨load, hload, hdrive⟩ := bind_eq_some_iff.mp hwait
    obtain ⟨calls, hcalls, rfl⟩ := map_eq_some_iff.mp hdrive
    unfold driveLoad at hcalls
    split at hcalls
    · cases hcalls
      exact .frame [] (append_nil _).symm nofun (Frame.refl _) rfl
    · rename_i hphase
      cases hcalls
      exact .frame [] (append_nil _).symm nofun (frame_removeIfGenerationMatches _ _ hphase) rfl
    · cases hcalls
  | report =>
    obtain ⟨caller, hcaller, hwait⟩ := bind_eq_some_iff.mp h
    obtain ⟨load, hload, hreport⟩ := bind_eq_some_iff.mp hwait
    split_ifs at hreport with hphase
    cases hreport
    refine .report ⟨caller, mem_of_getElem? hcaller, hload⟩ hphase.1 ?_
    change Option.map _ (Option.bind _ _) = _
    rw [hcaller, bind_some, hload]
    rfl
  | finish =>
    obtain ⟨calls, hcalls, rfl⟩ := map_eq_some_iff.mp h
    obtain ⟨caller, hcaller, hwait⟩ := bind_eq_some_iff.mp hcalls
    obtain ⟨load, hload, hfinish⟩ := bind_eq_some_iff.mp hwait
    split_ifs at hfinish with hphase
    cases hfinish
    refine change_of_leave hcaller (fun _ key _ hdrives ↦ ?_) rfl
    -- a load that is finished has reported
    unfold drives at hdrives
    unfold Caller.waitsOn at hload
    split at hload
    · rename_i held generation hpos
      cases hload
      rw [hpos] at hdrives
      simp [hphase] at hdrives
    · cases hload
  | cancel =>
    obtain ⟨calls, hcalls, rfl⟩ := map_eq_some_iff.mp h
    obtain ⟨caller, hcaller, hcancel⟩ := bind_eq_some_iff.mp hcalls
    split_ifs at hcancel
    cases hcancel
    refine change_of_leave hcaller (fun hkeeps key hhalf hdrives ↦ ?_) rfl
    obtain ⟨other, hother, hstill⟩ :=
      hkeeps caller hcaller key (mem_keys_of_halfOpen hhalf) hhalf hdrives
    obtain ⟨j, hne, hj⟩ := mem_eraseIdx_iff_getElem?.mp hother
    exact ⟨j, other, hne, hj, hstill⟩
  | cleanup =>
    obtain ⟨calls, hcalls, rfl⟩ := map_eq_some_iff.mp h
    change (if _ then _ else _) = _ at hcalls
    split_ifs at hcalls
    cases hcalls
    exact .frame [] (append_nil _).symm nofun (frame_removeIfIdle ..) rfl

/-! ### The loads there are -/

/-- Callers wait for loads there are, and the map lists them under their own keys. -/
structure Known (calls : InFlight.State) : Prop where
  handles : ∀ caller ∈ calls.callers, ∀ load, caller.waitsOn = some load → load < calls.map.created
  entries : ∀ name entry, calls.map.entries.lookup name = some entry →
    entry.load < calls.map.created ∧ (calls.map.loads entry.load).key = name

theorem waitsOn_eq_none_of_silent (h : silent caller.position = true) : caller.waitsOn = none := by
  cases hpos : caller.position <;> simp_all [Caller.waitsOn, silent]

theorem drives_eq_false_of_silent (h : silent caller.position = true)
    (map : InFlightMap) (key : Key) : drives map key caller = false := by
  cases hpos : caller.position <;> simp_all [drives, silent]

theorem Frame.drives {before after : InFlightMap} (h : Frame before after) (key : Key)
    (caller : Caller) : drives after key caller = drives before key caller := by
  unfold LoadProbe.drives
  split
  · rfl
  · rw [h.key, decide_eq_decide, h.loading]
  · rfl

/-- The callers wait for loads they waited for, or for one there is. -/
theorem Known.frame (h : Known calls) (hframe : Frame calls.map after.map)
    (hcalls : ∀ caller ∈ after.callers, ∀ load, caller.waitsOn = some load →
      caller ∈ calls.callers ∨ load < calls.map.created) : Known after where
  handles caller hcaller load hload := by
    rw [hframe.created]
    rcases hcalls caller hcaller load hload with hmem | hlt
    · exact h.handles caller hmem load hload
    · exact hlt
  entries name entry hlook := by
    rw [hframe.created, hframe.key]
    exact h.entries name entry (hframe.entries name entry hlook)

theorem Known.setCaller (h : Known calls) (hframe : Frame calls.map after.map)
    (hcalls : after.callers = (calls.setCaller i caller position).callers)
    (hwaits : ∀ load, (caller.moveTo position).waitsOn = some load → load < calls.map.created) :
    Known after := by
  refine h.frame hframe fun other hother load hload ↦ ?_
  rw [hcalls] at hother
  rcases mem_setCaller hother with hmem | rfl
  · exact .inl hmem
  · exact .inr (hwaits load hload)

/-- The caller has put its load in the map. -/
abbrev inserted (calls : InFlight.State) (i : ℕ) (caller : Caller)
    (generation : LoadGenerationSnapshot) :
    InFlight.State :=
  { calls.setCaller i caller (.waiting calls.map.created generation) with
    map := calls.map.insertLoad caller.key generation }

theorem Known.insertLoad (h : Known calls) (generation : LoadGenerationSnapshot) :
    Known (inserted calls i caller generation) where
  handles other hother load hload := by
    rcases mem_setCaller hother with hmem | rfl
    · exact Nat.lt_succ_of_lt (h.handles other hmem load hload)
    · cases hload
      exact Nat.lt_succ_self _
  entries name entry hlook := by
    obtain ⟨hname, rfl⟩ | hlook := KeyMap.of_lookup_insert hlook
    · refine ⟨Nat.lt_succ_self _, ?_⟩
      rw [insertLoad_loads_created]
      exact hname.symm
    · obtain ⟨hlt, hkey⟩ := h.entries name entry hlook
      refine ⟨Nat.lt_succ_of_lt hlt, ?_⟩
      rwa [insertLoad_loads_of_lt hlt]

theorem known_change (h : Change policy s event s') (hknown : Known s.calls) : Known s'.calls := by
  cases h with
  | frame _ hcalls hfresh hframe =>
    refine hknown.frame hframe fun caller hcaller load hload ↦ ?_
    rw [hcalls] at hcaller
    rcases mem_append.mp hcaller with hmem | hmem
    · exact .inl hmem
    · simp [waitsOn_eq_none_of_silent (hfresh caller hmem)] at hload
  | move _ _ hafter =>
    refine hknown.setCaller (Frame.refl _) rfl fun load hload ↦ ?_
    rw [waitsOn_eq_none_of_silent hafter] at hload
    cases hload
  | ask =>
    refine hknown.setCaller (Frame.refl _) rfl fun load hload ↦ ?_
    split_ifs at hload <;> cases hload
  | join _ _ hentry =>
    refine hknown.setCaller (frame_setWaiters ..) rfl fun load hload ↦ ?_
    cases hload
    exact (hknown.entries _ _ hentry).1
  | insert => exact hknown.insertLoad _
  | report =>
    refine ⟨hknown.handles, fun name entry hlook ↦ ?_⟩
    obtain ⟨hlt, hkey⟩ := hknown.entries name entry hlook
    exact ⟨hlt, (setPhase_key ..).trans hkey⟩
  | leave _ hcalls hframe => exact hknown.setCaller hframe hcalls nofun

/-! ### Half-open keys -/

/-- A key is half-open only under a breaker that is enabled, and then has a load outstanding. -/
structure Probed (policy : LoadBreakerPolicy) (s : Registry) : Prop where
  known : Known s.calls
  enabled : ∀ key, halfOpen s.breakers key = true → policy.isEnabled = true
  outstanding : ∀ key, halfOpen s.breakers key = true → Outstanding s.calls key

/-- The step lets the key through. -/
def Allows (policy : LoadBreakerPolicy) (s : Registry) (key : Key) : Prop :=
  (beforeLoad policy s.breakers s.now key).1 = .allow

theorem not_allows_iff :
    ¬ Allows policy s key ↔ (beforeLoad policy s.breakers s.now key).1 = .reject := by
  unfold Allows
  cases (beforeLoad policy s.breakers s.now key).1 <;> simp

theorem moveTo_mem_setCaller (hcaller : calls.callers[i]? = some caller) (position : Position) :
    caller.moveTo position ∈ (calls.setCaller i caller position).callers := by
  obtain ⟨hi, _⟩ := List.getElem?_eq_some_iff.mp hcaller
  exact mem_set hi _

theorem mem_setCaller_of_ne {j : ℕ} (hother : calls.callers[j]? = some other)
    (hne : j ≠ i) (position : Position) : other ∈ (calls.setCaller i caller position).callers := by
  refine mem_of_getElem? (i := j) ?_
  rwa [State.setCaller, List.getElem?_set_ne hne.symm]

/-- Assumes: a caller moves, and all callers that drove a load of the key still do, in what the map
has become. A load of the key stays outstanding. -/
theorem Outstanding.setCaller (h : Outstanding calls key)
    (hcaller : calls.callers[i]? = some caller)
    (hcalls : after.callers = (calls.setCaller i caller position).callers)
    (hkept : ∀ other ∈ calls.callers, drives calls.map key other = true →
      drives after.map key other = true)
    (hmoved : drives calls.map key caller = true →
      drives after.map key (caller.moveTo position) = true) : Outstanding after key := by
  obtain ⟨other, hmem, hdrives⟩ := h
  obtain ⟨j, hj⟩ := mem_iff_getElem?.mp hmem
  by_cases hji : j = i
  · subst hji
    rw [hcaller] at hj
    cases hj
    refine ⟨caller.moveTo .., ?_, hmoved hdrives⟩
    rw [hcalls]
    exact moveTo_mem_setCaller hcaller position
  · refine ⟨other, ?_, hkept other hmem hdrives⟩
    rw [hcalls]
    exact mem_setCaller_of_ne hj hji position

theorem drives_insertLoad (hknown : Known calls) (hmem : other ∈ calls.callers)
    (name : Key) (generation : LoadGenerationSnapshot) :
    drives (calls.map.insertLoad name generation) key other = drives calls.map key other := by
  unfold drives
  split
  · rfl
  · rename_i load taken hpos
    have hlt : load < calls.map.created :=
      hknown.handles other hmem load (by rw [Caller.waitsOn, hpos])
    rw [insertLoad_loads_of_lt hlt]
  · rfl

/-- A report changes nothing for the loads of other keys. -/
theorem drives_setPhase_of_ne {map : InFlightMap} (h : key ≠ (map.loads load).key)
    (other : Caller) : drives (map.setPhase load .finishing) key other = drives map key other := by
  unfold drives
  split
  · rfl
  · rename_i held _ _
    rw [setPhase_key, setPhase_phase]
    by_cases hheld : held = load
    · subst hheld
      simp [h.symm]
    · rw [if_neg hheld]
  · rfl

theorem outstanding_insert (hknown : Known s.calls) (hcaller : s.calls.callers[i]? = some caller)
    (generation : LoadGenerationSnapshot) (h : Outstanding s.calls key)
    (hpos : caller.position = .inserting generation) :
    Outstanding (inserted s.calls i caller generation) key := by
  refine h.setCaller hcaller rfl (fun other hother hdrives ↦ ?_) fun hdrives ↦ ?_
  · exact (drives_insertLoad hknown hother _ _).trans hdrives
  · have hkey : caller.key = key := by
      rw [drives, hpos] at hdrives
      exact of_decide_eq_true hdrives
    change decide
      (((s.calls.map.insertLoad caller.key generation).loads s.calls.map.created).key = key ∧
      ((s.calls.map.insertLoad ..).loads s.calls.map.created).phase = .loading) = true
    rw [insertLoad_loads_created]
    simp [hkey]

/-- Where the key was half-open before, it keeps an outstanding load. -/
theorem outstanding_change (h : Change policy s event s') (hkeeps : KeepsProbe s event)
    (hknown : Known s.calls) (hhalf : halfOpen s.breakers key = true)
    (hrep : s.reported event ≠ some key) (hout : Outstanding s.calls key) :
    Outstanding s'.calls key := by
  cases h with
  | frame _ hcalls _ hframe =>
    obtain ⟨caller, hcaller, hdrives⟩ := hout
    refine ⟨caller, ?_, (hframe.drives ..).trans hdrives⟩
    rw [hcalls]
    exact mem_append_left _ hcaller
  | move hcaller hpre =>
    refine hout.setCaller hcaller rfl (fun _ _ h ↦ h) fun hdrives ↦ ?_
    simp [drives_eq_false_of_silent hpre] at hdrives
  | @ask _ _ _ hcaller hpos =>
    refine hout.setCaller hcaller rfl (fun _ _ h ↦ h) fun hdrives ↦ ?_
    simp [drives, hpos] at hdrives
  | @join _ caller load count _ hcaller hpos hentry hprobe =>
    have hframe := frame_setWaiters s.calls.map load count
    refine hout.setCaller hcaller rfl (fun other _ h ↦ (hframe.drives ..).trans h) fun hdrives ↦ ?_
    rcases hpos with hpos | hpos
    · simp [drives, hpos] at hdrives
    · have hkey : caller.key = key := by
        rw [drives, hpos] at hdrives
        exact of_decide_eq_true hdrives
      have hphase := hprobe hkeeps hpos (hkey ▸ hhalf)
      refine (hframe.drives key _).trans ?_
      exact decide_eq_true ⟨((hknown.entries _ _ hentry).2).trans hkey, hphase⟩
  | insert hcaller hpos => exact outstanding_insert hknown hcaller _ hout hpos
  | @report load _ _ _ _ hkey =>
    have hne : key ≠ (s.calls.map.loads load).key := by
      rintro rfl
      exact hrep hkey
    obtain ⟨caller, hcaller, hdrives⟩ := hout
    exact ⟨caller, hcaller, (drives_setPhase_of_ne hne ..).trans hdrives⟩
  | @leave _ caller calls hcaller hcalls hframe hprobe =>
    by_cases hdrives : drives s.calls.map key caller = true
    · -- the caller leaves another one behind that drives a load of the key
      obtain ⟨j, other, hne, hother, hstill⟩ := hprobe hkeeps key hhalf hdrives
      refine ⟨other, ?_, (hframe.drives ..).trans hstill⟩
      change other ∈ calls.callers
      rw [hcalls]
      exact mem_setCaller_of_ne hother hne .returned
    · refine hout.setCaller hcaller hcalls (fun other _ h ↦ (hframe.drives ..).trans h) ?_
      exact fun h ↦ absurd h hdrives

/-- A key that is half-open after a step was so before, with no report on it, or has been let
through in the step. -/
theorem halfOpen_change (h : Change policy s event s')
    (hena : ∀ name, halfOpen s.breakers name = true → policy.isEnabled = true)
    (hhalf : halfOpen s'.breakers key = true) :
    policy.isEnabled = true ∧
      ((halfOpen s.breakers key = true ∧ s.reported event ≠ some key) ∨
        Outstanding s'.calls key) := by
  have hframe (hnone : s.reported event = none) (hpre : halfOpen s.breakers key = true) :
      policy.isEnabled = true ∧ ((halfOpen s.breakers key = true ∧ s.reported event ≠ some key) ∨
        Outstanding s'.calls key) :=
    ⟨hena key hpre, .inl ⟨hpre, by rw [hnone]; nofun⟩⟩
  cases h with
  | frame _ _ _ _ hnone | move _ _ _ hnone | join _ _ _ _ hnone | insert _ _ hnone
  | leave _ _ _ _ hnone =>
    exact hframe hnone hhalf
  | @ask _ caller _ hcaller _ hnone =>
    by_cases hon : policy.isEnabled = true
    · by_cases hother : key ≠ caller.key ∨ ¬ Allows policy s caller.key
      · exact hframe hnone ((thins_beforeLoad (hother.imp_right not_allows_iff.mp)).halfOpen hhalf)
      · obtain ⟨rfl, hallow⟩ : key = caller.key ∧ Allows policy s caller.key := by
          simpa only [not_or, not_not] using hother
        refine ⟨hon, .inr ⟨_, moveTo_mem_setCaller hcaller _, ?_⟩⟩
        rw [if_pos (by exact hallow)]
        exact decide_eq_true rfl
    · rw [beforeLoad_of_isEnabled_eq_false (Bool.eq_false_iff.mpr hon)] at hhalf
      exact absurd (hena key hhalf) hon
  | @report load _ _ _ _ hkey =>
    by_cases hon : policy.isEnabled = true
    · have hne : key ≠ (s.calls.map.loads load).key := by
        rintro rfl
        exact absurd hhalf (Bool.eq_false_iff.mp (halfOpen_afterLoadResult hon))
      refine ⟨hon, .inl ⟨(thins_afterLoadResult hne).halfOpen hhalf, ?_⟩⟩
      rw [hkey]
      exact fun h ↦ hne (Option.some.inj h).symm
    · rw [report, afterLoadResult_of_isEnabled_eq_false (Bool.eq_false_iff.mpr hon)] at hhalf
      exact absurd (hena key hhalf) hon

theorem probed_step (hkeeps : KeepsProbe s event) (h : Probed policy s)
    (hstep : s.step policy event = some s') : Probed policy s' := by
  have hchg := change_of_step hstep
  refine ⟨known_change hchg h.known, fun key hhalf ↦ ?_, fun key hhalf ↦ ?_⟩
  · exact (halfOpen_change hchg h.enabled hhalf).1
  · rcases (halfOpen_change hchg h.enabled hhalf).2 with ⟨hpre, hrep⟩ | hout
    · exact outstanding_change hchg hkeeps h.known hpre hrep (h.outstanding key hpre)
    · exact hout

theorem probed_initial (policy : LoadBreakerPolicy) : Probed policy .initial where
  known := ⟨nofun, nofun⟩
  enabled _ h := nomatch h
  outstanding _ h := nomatch h

/-! ### Reports still to come -/

/-- A load of the key that has not reported, and that callers wait for or find in the map. -/
def Unreported (calls : InFlight.State) (key : Key) (load : ℕ) : Prop :=
  (calls.map.loads load).key = key ∧ (calls.map.loads load).phase = .loading ∧
    ((∃ caller ∈ calls.callers, caller.waitsOn = some load) ∨
      (calls.map.entries.lookup key).map InFlightEntry.load = some load)

instance (calls : InFlight.State) (key : Key) : DecidablePred (Unreported calls key) := fun _ ↦
  inferInstanceAs (Decidable (_ ∧ _ ∧ (_ ∨ _)))

def pendingLoads (calls : InFlight.State) (key : Key) : Finset ℕ :=
  (Finset.range calls.map.created).filter (Unreported calls key)

/-- The caller was let through for the key. -/
def admitted (key : Key) (caller : Caller) : Bool :=
  match caller.position with
  | .inserting _ => caller.key = key
  | _ => false

/-- How many loads of the key may still report. -/
def pending (calls : InFlight.State) (key : Key) : ℕ :=
  calls.callers.countP (admitted key) + (pendingLoads calls key).card

theorem admitted_eq_false_of_silent (h : silent caller.position = true) (key : Key) :
    admitted key caller = false := by
  cases hpos : caller.position <;> simp_all [admitted, silent]

section

variable (hcaller : calls.callers[i]? = some caller)
include hcaller

/-- A caller moves to where it is not one that was let through. -/
theorem countP_admitted_setCaller_le (h : admitted key (caller.moveTo position) = false) :
    (calls.setCaller i caller position).callers.countP (admitted key) ≤
      calls.callers.countP (admitted key) := by
  rw [countP_setCaller hcaller, h]
  exact Nat.sub_le _ _

theorem countP_admitted_setCaller_lt
    (hpre : admitted key caller = true) (hafter : admitted key (caller.moveTo position) = false) :
    (calls.setCaller i caller position).callers.countP (admitted key) <
      calls.callers.countP (admitted key) := by
  have hpos : 0 < calls.callers.countP (admitted key) :=
    countP_pos_iff.mpr ⟨caller, mem_of_getElem? hcaller, hpre⟩
  rw [countP_setCaller hcaller, hafter, hpre]
  exact Nat.sub_lt hpos Nat.one_pos

end

/-- A load that callers wait for after the step had callers that waited for it, or was in the
map. -/
theorem Unreported.of_frame (h : Unreported after key load) (hframe : Frame calls.map after.map)
    (hwaits : ∀ caller ∈ after.callers, caller.waitsOn = some load →
      caller ∈ calls.callers ∨ (calls.map.entries.lookup key).map InFlightEntry.load = some load) :
    Unreported calls key load := by
  obtain ⟨hkey, hloading, hreach⟩ := h
  refine ⟨(hframe.key load).symm.trans hkey, (hframe.loading load).mp hloading, ?_⟩
  rcases hreach with ⟨caller, hcaller, hload⟩ | hlist
  · rcases hwaits caller hcaller hload with hmem | hentry
    · exact .inl ⟨caller, hmem, hload⟩
    · exact .inr hentry
  · obtain ⟨entry, hentry, hload⟩ := map_eq_some_iff.mp hlist
    exact .inr (map_eq_some_iff.mpr ⟨entry, hframe.entries key entry hentry, hload⟩)

theorem pendingLoads_subset (hnew : after.map.created = calls.map.created)
    (h : ∀ load, Unreported after key load → Unreported calls key load) :
    pendingLoads after key ⊆ pendingLoads calls key := by
  intro load hload
  obtain ⟨hlt, hunr⟩ := Finset.mem_filter.mp hload
  exact Finset.mem_filter.mpr ⟨hnew ▸ hlt, h load hunr⟩

section

variable (hframe : Frame calls.map after.map)
  (hcalls : after.callers = (calls.setCaller i caller position).callers)
  (hwaits : ∀ load, (calls.map.loads load).key = key →
    (caller.moveTo position).waitsOn = some load →
    (calls.map.entries.lookup key).map InFlightEntry.load = some load)
include hframe hcalls hwaits

/-- Assumes: a caller moves, to a load it finds in the map or to none. No load of the key becomes
pending. -/
theorem pendingLoads_setCaller : pendingLoads after key ⊆ pendingLoads calls key := by
  refine pendingLoads_subset hframe.created fun load hunr ↦ ?_
  refine hunr.of_frame hframe fun other hother hload ↦ ?_
  rw [hcalls] at hother
  rcases mem_setCaller hother with hmem | rfl
  · exact .inl hmem
  · exact .inr (hwaits load ((hframe.key load).symm.trans hunr.1) hload)

/-- Assumes: a caller moves to where it is not one that was let through, and waits for nothing
new. -/
theorem pending_setCaller (hcaller : calls.callers[i]? = some caller)
    (hadm : admitted key (caller.moveTo position) = false) :
    pending after key ≤ pending calls key := by
  refine Nat.add_le_add ?_ (Finset.card_le_card (pendingLoads_setCaller hframe hcalls hwaits))
  rw [hcalls]
  exact countP_admitted_setCaller_le hcaller hadm

end

/-- Of the loads pending after a load was put in the map, all but that one were pending before. -/
theorem mem_pendingLoads_of_insert
    (h : load ∈ pendingLoads (inserted calls i caller generation) key) :
    (load = calls.map.created ∧ caller.key = key) ∨ load ∈ pendingLoads calls key := by
  obtain ⟨hlt, hkey, hloading, hreach⟩ := Finset.mem_filter.mp h
  rcases Nat.lt_succ_iff_lt_or_eq.mp (Finset.mem_range.mp hlt) with hlt | rfl
  · refine .inr (Finset.mem_filter.mpr ⟨Finset.mem_range.mpr hlt, ?_⟩)
    rw [insertLoad_loads_of_lt hlt] at hkey hloading
    refine ⟨hkey, hloading, ?_⟩
    rcases hreach with ⟨other, hother, hload⟩ | hlist
    · rcases mem_setCaller hother with hmem | rfl
      · exact .inl ⟨other, hmem, hload⟩
      · cases hload
        exact absurd hlt (Nat.lt_irrefl _)
    · change ((calls.map.entries.insert caller.key
        ⟨calls.map.created, generation⟩).lookup key).map _ = _ at hlist
      rw [KeyMap.lookup_insert_apply] at hlist
      split_ifs at hlist
      · cases hlist
        exact absurd hlt (Nat.lt_irrefl _)
      · exact .inr hlist
  · rw [insertLoad_loads_created] at hkey
    exact .inl ⟨rfl, hkey⟩

/-- A caller that was let through puts its load in the map, which is pending in its place. -/
theorem pending_insert (hcaller : calls.callers[i]? = some caller)
    (hpos : caller.position = .inserting generation)
    (key : Key) : pending (inserted calls i caller generation) key ≤ pending calls key := by
  by_cases hkey : caller.key = key
  · have hpre : admitted key caller = true := by
      rw [admitted, hpos]
      exact decide_eq_true hkey
    have hafter : admitted key (caller.moveTo (.waiting calls.map.created generation)) = false :=
      rfl
    have hcount := countP_admitted_setCaller_lt hcaller hpre hafter
    have hloads : pendingLoads (inserted calls i caller generation) key ⊆
        insert calls.map.created (pendingLoads calls key) := by
      intro load hload
      rcases mem_pendingLoads_of_insert hload with ⟨rfl, _⟩ | hpre
      · exact Finset.mem_insert_self _ _
      · exact Finset.mem_insert_of_mem hpre
    have hcard := (Finset.card_le_card hloads).trans (Finset.card_insert_le _ _)
    unfold pending
    change
      (calls.setCaller i caller (.waiting calls.map.created generation)).callers.countP _ + _ ≤ _
    omega
  · refine Nat.add_le_add (countP_admitted_setCaller_le hcaller rfl) (Finset.card_le_card ?_)
    intro load hload
    rcases mem_pendingLoads_of_insert hload with ⟨_, hname⟩ | hpre
    · exact absurd hname hkey
    · exact hpre

/-- A report takes its load out of the pending ones. -/
theorem pendingLoads_report (calls : InFlight.State) (load : ℕ) (key : Key) :
    pendingLoads { calls with map := calls.map.setPhase load .finishing } key ⊆
      (pendingLoads calls key).erase load := by
  intro other hother
  obtain ⟨hlt, hkey, hload, hreach⟩ := Finset.mem_filter.mp hother
  rw [setPhase_phase] at hload
  split_ifs at hload with hsame
  refine Finset.mem_erase.mpr ⟨hsame, Finset.mem_filter.mpr ⟨hlt, ?_, hload, hreach⟩⟩
  exact (setPhase_key ..).symm.trans hkey

theorem mem_pendingLoads_of_waits (hknown : Known calls)
    (hwaits : ∃ caller ∈ calls.callers, caller.waitsOn = some load)
    (hphase : (calls.map.loads load).phase = .loading) :
    load ∈ pendingLoads calls (calls.map.loads load).key := by
  obtain ⟨caller, hcaller, hload⟩ := hwaits
  refine Finset.mem_filter.mpr ⟨Finset.mem_range.mpr (hknown.handles caller hcaller load hload), ?_⟩
  exact ⟨rfl, hphase, .inl ⟨caller, hcaller, hload⟩⟩

/-- While the key is rejected no step makes more reports on it pending, and a report makes them
fewer. -/
theorem pending_change (h : Change policy s event s') (hknown : Known s.calls)
    (hrej : ¬ Allows policy s key) :
    pending s'.calls key ≤ pending s.calls key ∧
      (s.reported event = some key → pending s'.calls key < pending s.calls key) := by
  have hquiet (hnone : s.reported event = none) (hle : pending s'.calls key ≤ pending s.calls key) :
      pending s'.calls key ≤ pending s.calls key ∧
        (s.reported event = some key → pending s'.calls key < pending s.calls key) :=
    ⟨hle, fun h ↦ by rw [hnone] at h; cases h⟩
  cases h with
  | @frame _ _ fresh hcalls hfresh hframe hnone =>
    refine hquiet hnone (Nat.add_le_add (Nat.le_of_eq ?_) (Finset.card_le_card ?_))
    · have hfresh : fresh.countP (admitted key) = 0 := by
        rw [countP_eq_zero]
        intro caller hcaller
        rw [admitted_eq_false_of_silent (hfresh caller hcaller)]
        exact Bool.false_ne_true
      rw [hcalls, countP_append, hfresh, Nat.add_zero]
    · refine pendingLoads_subset hframe.created fun load hload ↦ ?_
      refine hload.of_frame hframe fun caller hcaller hwaits ↦ ?_
      rw [hcalls] at hcaller
      rcases mem_append.mp hcaller with hmem | hmem
      · exact .inl hmem
      · simp [waitsOn_eq_none_of_silent (hfresh caller hmem)] at hwaits
  | move hcaller _ hafter hnone =>
    refine hquiet hnone (pending_setCaller (Frame.refl _) rfl (fun load _ hwaits ↦ ?_) hcaller
      (admitted_eq_false_of_silent hafter key))
    rw [waitsOn_eq_none_of_silent hafter] at hwaits
    cases hwaits
  | @ask _ caller _ hcaller _ hnone =>
    refine hquiet hnone (pending_setCaller (Frame.refl _) rfl (fun load _ hwaits ↦ ?_) hcaller ?_)
    · split_ifs at hwaits <;> cases hwaits
    · split_ifs with hallow
      · exact decide_eq_false fun (hname : caller.key = key) ↦ hrej (hname ▸ hallow)
      · rfl
  | @join _ _ _ _ _ hcaller _ hentry _ hnone =>
    refine hquiet hnone
      (pending_setCaller (frame_setWaiters ..) rfl (fun held hheld hwaits ↦ ?_) hcaller rfl)
    cases hwaits
    rw [← hheld, (hknown.entries _ _ hentry).2, hentry]
    rfl
  | insert hcaller hpos hnone => exact hquiet hnone (pending_insert hcaller hpos key)
  | @report load _ _ hwaits hphase hkey =>
    have hsubset := pendingLoads_report s.calls load key
    constructor
    · refine Nat.add_le_add_left (Finset.card_le_card (hsubset.trans ?_)) _
      exact Finset.erase_subset _ _
    · intro hrep
      have hname : (s.calls.map.loads load).key = key := Option.some.inj (hkey.symm.trans hrep)
      have hmem : load ∈ pendingLoads s.calls key :=
        hname ▸ mem_pendingLoads_of_waits hknown hwaits hphase
      refine Nat.add_lt_add_left ((Finset.card_le_card hsubset).trans_lt ?_) _
      exact Finset.card_erase_lt_of_mem hmem
  | @leave _ _ _ hcaller hcalls hframe _ hnone =>
    exact hquiet hnone (pending_setCaller hframe hcalls nofun hcaller rfl)

/-- Without a report on it, an open key that is rejected keeps its record. -/
theorem lookup_change {entry : LoadBreaker} (h : Change policy s event s')
    (hrej : ¬ Allows policy s key) (hrep : s.reported event ≠ some key)
    (hlook : s.breakers.lookup key = some entry) (hopen : entry.isOpen = true) :
    s'.breakers.lookup key = some entry := by
  cases h with
  | frame | move | join | insert | leave => exact hlook
  | @ask _ caller =>
    refine (thins_beforeLoad ?_).isOpen entry hlook hopen
    by_cases hkey : key = caller.key
    · exact .inr (not_allows_iff.mp (hkey ▸ hrej))
    · exact .inl hkey
  | report _ _ hkey =>
    refine (thins_afterLoadResult ?_).isOpen entry hlook hopen
    rintro rfl
    exact hrep hkey

/-! ### Keys are let through again -/

variable {states : ℕ → Registry} {events : ℕ → Event}

section

variable (h : Endless (Registry.step policy) KeepsProbe .initial states events)
include h

/-- Assumes: a run in which the key is rejected from some point on. From some later point on its
record stays, and no load reports on it. -/
theorem exists_settled {n : ℕ} (hrej : ∀ m ≥ n, ¬ Allows policy (states m) key) :
    ∃ settled ≥ n, ∃ entry : LoadBreaker, entry.isOpen = true ∧
      ∀ m ≥ settled, (states m).breakers.lookup key = some entry ∧
        (states m).reported (events m) ≠ some key := by
  have hprobed : ∀ m, Probed policy (states m) :=
    endless_invariant (fun _ _ _ ↦ probed_step) (probed_initial ..) h
  have hpend (m : ℕ) (hm : m ≥ n) :=
    pending_change (change_of_step (h.taken m)) (hprobed m).known (hrej m hm)
  have hexists : ∃ quiet ≥ n, ∀ m ≥ quiet, ¬ (states m).reported (events m) = some key :=
    exists_quiet (fun m ↦ pending (states m).calls key) (fun m hm ↦ (hpend m hm).1)
      fun m hm ↦ (hpend m hm).2
  obtain ⟨settled, hset, hquiet⟩ := hexists
  obtain ⟨_, entry, openedAt, hlook, hopened, _⟩ :=
    beforeLoad_eq_reject_iff.mp (not_allows_iff.mp (hrej settled hset))
  have hopen : entry.isOpen = true := by
    rw [LoadBreaker.isOpen, hopened]
    rfl
  refine ⟨settled, hset, entry, hopen, fun m hm ↦ ⟨?_, hquiet m hm⟩⟩
  induction m, hm using Nat.le_induction with
  | base => exact hlook
  | succ m hm ih =>
    exact lookup_change (change_of_step (h.taken m)) (hrej m (hset.trans hm)) (hquiet m hm) ih hopen

theorem allows_again
    (hends : ∀ n, (∀ m ≥ n, Outstanding (states m).calls key) →
      ∃ m ≥ n, (states m).reported (events m) = some key)
    (hclock : ∀ instant n, ∃ m ≥ n, instant ≤ (states m).now) (n : ℕ) :
    ∃ m ≥ n, Allows policy (states m) key := by
  by_contra hnever
  have hrej : ∀ m ≥ n, ¬ Allows policy (states m) key := fun m hm h ↦ hnever ⟨m, hm, h⟩
  obtain ⟨settled, hset, entry, _, hkept⟩ := exists_settled h hrej
  have hreason (m : ℕ) (hm : m ≥ settled) : ∃ openedAt, entry.openedAt = some openedAt ∧
      (entry.halfOpen = true ∨ (states m).now - openedAt < entry.backoff) := by
    obtain ⟨_, found, openedAt, hlook, hopen, hreason⟩ :=
      beforeLoad_eq_reject_iff.mp (not_allows_iff.mp (hrej m (hset.trans hm)))
    rw [(hkept m hm).1] at hlook
    cases hlook
    exact ⟨openedAt, hopen, hreason⟩
  by_cases hhalf : entry.halfOpen = true
  · -- the probe reports, which it does no more
    have hout (m : ℕ) (hm : m ≥ settled) : Outstanding (states m).calls key := by
      have hprobed := endless_invariant (fun _ _ _ ↦ probed_step) (probed_initial ..) h m
      exact hprobed.outstanding key (halfOpen_eq_true_iff.mpr ⟨entry, (hkept m hm).1, hhalf⟩)
    obtain ⟨m, hm, hrep⟩ := hends settled hout
    exact (hkept m hm).2 hrep
  · -- the backoff elapses
    obtain ⟨openedAt, hopen, _⟩ := hreason settled (Nat.le_refl _)
    obtain ⟨m, hm, hlate⟩ := hclock (openedAt + entry.backoff) settled
    obtain ⟨openedAt', hopened', hreason'⟩ := hreason m hm
    rw [hopen] at hopened'
    cases hopened'
    have helapsed := hreason'.resolve_left hhalf
    omega

end

/-- Assumes: steps that keep the last outstanding load of a half-open key. In every state of a run a
half-open key has a load outstanding. In an endless run in which time passes and no load stays
outstanding forever, every key is let through after every point. -/
theorem probe_outstanding (policy : LoadBreakerPolicy) :
    (∀ events s, Along (Registry.step policy) KeepsProbe .initial events →
      run (Registry.step policy) .initial events = some s →
        ∀ key, halfOpen s.breakers key = true → Outstanding s.calls key) ∧
    ∀ states events, Endless (Registry.step policy) KeepsProbe .initial states events →
      (∀ key n, (∀ m ≥ n, Outstanding (states m).calls key) →
        ∃ m ≥ n, (states m).reported (events m) = some key) →
      (∀ instant n, ∃ m ≥ n, instant ≤ (states m).now) →
        ∀ key n, ∃ m ≥ n, Allows policy (states m) key := by
  constructor
  · intro events s halong hrun
    exact (run_invariant (fun _ _ _ ↦ probed_step) (probed_initial ..) halong hrun).outstanding
  · intro states events h hends hclock key n
    exact allows_again h (hends key) hclock n

def probedPolicy : LoadBreakerPolicy := .new 2 1000000 1000000

/-- A key fails twice, and its probe is waited for. -/
def probeEvents : List Event :=
  [.call "k" [], .advance 0, .advance 0, .advance 0, .advance 0, .report 0 false [], .poll 0,
    .finish 0 true, .call "k" [], .advance 1, .advance 1, .advance 1, .advance 1,
    .report 1 false ["k"], .poll 1, .finish 1 true, .elapse 1000000, .call "k" [], .advance 2,
    .advance 2, .advance 2, .advance 2]

/-- The probe succeeds. -/
def probedEvents : List Event := [.report 2 true ["k"], .poll 2, .finish 2 true]

/-- The key is half-open with its probe outstanding, the probe succeeds, and time passes. -/
theorem probe_outstanding_waited_for :
    ∃ states events, Endless (Registry.step probedPolicy) KeepsProbe .initial states events ∧
      halfOpen (states probeEvents.length).breakers "k" = true ∧
      Outstanding (states probeEvents.length).calls "k" ∧
      ∀ key n, ∃ m ≥ n, Allows probedPolicy (states m) key := by
  have hall : Along (Registry.step probedPolicy) KeepsProbe .initial
      (probeEvents ++ probedEvents) := by decide +kernel
  obtain ⟨halong, hafter⟩ := along_append_iff.mp hall
  have hruns : ∃ s, run (Registry.step probedPolicy) .initial probeEvents = some s ∧
      halfOpen s.breakers "k" = true := exists_eq_some _ (by decide +kernel) fun _ _ h ↦ h
  have hends : ∃ s, run (Registry.step probedPolicy) .initial (probeEvents ++ probedEvents) =
    some s ∧ ∀ caller ∈ s.calls.callers, silent caller.position = true :=
    exists_eq_some _ (by decide +kernel) fun _ _ h ↦ h
  obtain ⟨probed, hprobe, hhalf⟩ := hruns
  obtain ⟨final, hrun, hsilent⟩ := hends
  obtain ⟨_, hsame, hrest⟩ := run_append_eq_some.mp hrun
  cases hprobe.symm.trans hsame
  -- the two runs, and time that passes after them
  have htime : Endless (Registry.step probedPolicy) KeepsProbe final
      (fun n ↦ { final with now := final.now + n }) fun _ ↦ .elapse 1 :=
    ⟨rfl, fun _ ↦ rfl, fun _ ↦ trivial⟩
  obtain ⟨_, _, hlater, hlast⟩ := htime.after (hafter probed hprobe) hrest
  obtain ⟨states, events, h, hnext⟩ := hlater.after halong hprobe
  have hstart : states probeEvents.length = probed := (hnext 0).trans hlater.start
  have hend (n : ℕ) : states (probeEvents.length + (probedEvents.length + n)) =
      { final with now := final.now + n } := (hnext _).trans (hlast n)
  refine ⟨states, events, h, ?_, ?_, (probe_outstanding _).2 states events h ?_ ?_⟩
  · rwa [hstart]
  · rw [hstart]
    exact (probe_outstanding _).1 _ probed halong hprobe "k" hhalf
  · intro key n hout
    obtain ⟨caller, hcaller, hdrives⟩ :=
      hout (probeEvents.length + (probedEvents.length + n)) (by omega)
    rw [hend] at hcaller hdrives
    simp [drives_eq_false_of_silent (hsilent caller hcaller)] at hdrives
  · intro instant n
    refine ⟨probeEvents.length + (probedEvents.length + (instant + n)), by omega, ?_⟩
    rw [hend]
    exact (Nat.le_add_right instant n).trans (Nat.le_add_left ..)

/-! ### A probe that is lost -/

instance (calls : InFlight.State) (key : Key) : Decidable (Outstanding calls key) :=
  inferInstanceAs (Decidable (∃ caller ∈ _, _ = true))

/-- The key is half-open and nothing can report on it. -/
structure Stuck (policy : LoadBreakerPolicy) (key : Key) (s : Registry) : Prop where
  known : Known s.calls
  enabled : policy.isEnabled = true
  halfOpen : halfOpen s.breakers key = true
  pending : pending s.calls key = 0

theorem Stuck.reject (h : Stuck policy key s) : ¬ Allows policy s key := by
  obtain ⟨entry, hlook, hhalf⟩ := halfOpen_eq_true_iff.mp h.halfOpen
  obtain ⟨openedAt, hopen⟩ := isSome_iff_exists.mp (isOpen_of_halfOpen hhalf)
  refine not_allows_iff.mpr (beforeLoad_eq_reject_iff.mpr ?_)
  exact ⟨h.enabled, entry, openedAt, hlook, hopen, .inl hhalf⟩

theorem stuck_step (h : Stuck policy key s) (hstep : s.step policy event = some s') :
    Stuck policy key s' := by
  have hchg := change_of_step hstep
  obtain ⟨hle, hlt⟩ := pending_change hchg h.known h.reject
  have hrep : s.reported event ≠ some key := by
    intro hrep
    have := hlt hrep
    rw [h.pending] at this
    exact absurd this (Nat.not_lt_zero _)
  obtain ⟨entry, hlook, hhalf⟩ := halfOpen_eq_true_iff.mp h.halfOpen
  have hkept := lookup_change hchg h.reject hrep hlook (isOpen_of_halfOpen hhalf)
  refine ⟨known_change hchg h.known, h.enabled, halfOpen_eq_true_iff.mpr ⟨entry, hkept, hhalf⟩, ?_⟩
  exact Nat.eq_zero_of_le_zero (h.pending ▸ hle)

theorem known_run {events : List Event}
    (hrun : run (Registry.step policy) .initial events = some s) :
    Known s.calls :=
  invariant_of_run (I := fun s ↦ Known s.calls)
    (fun _ _ _ hknown hstep ↦ known_change (change_of_step hstep) hknown)
      (probed_initial policy).known hrun

/-- A run is followed to its end, where the key is half-open and no report on it is to come. -/
theorem exists_stuck {events : List Event} (hena : policy.isEnabled = true)
    (heval : (run (Registry.step policy) .initial events).map
      (fun s ↦ decide (halfOpen s.breakers key = true ∧ ¬ Outstanding s.calls key ∧
      pending s.calls key = 0)) = some true) :
    ∃ s, run (Registry.step policy) .initial events = some s ∧ halfOpen s.breakers key = true ∧
      ¬ Outstanding s.calls key ∧ ∀ events s', run (Registry.step policy) s events = some s' →
        ¬ Allows policy s' key := by
  obtain ⟨s, hrun, hend⟩ := map_eq_some_iff.mp heval
  obtain ⟨hhalf, hout, hpend⟩ := of_decide_eq_true hend
  refine ⟨s, hrun, hhalf, hout, fun events s' hlater ↦ Stuck.reject ?_⟩
  -- whatever happens, the key stays rejected
  exact invariant_of_run (fun _ _ _ ↦ stuck_step) ⟨known_run hrun, hena, hhalf, hpend⟩ hlater

/-- A key that fails twice is open. A third caller probes it and is dropped while it waits for the
probe. In the second run a caller stops before it asks the breaker. Two loads started meanwhile open
the key, and when the backoff has elapsed the caller is let through as the probe and joins the
second of them, which has reported but is still in the map. Either way the key is half-open with no
load outstanding, and stays rejected. -/
theorem probe_lost :
    (∃ s, run (Registry.step (.new 2 1000000 1000000)) .initial
        [.call "k" [], .advance 0, .advance 0, .advance 0, .advance 0, .report 0 false [], .poll 0,
          .finish 0 true, .call "k" [], .advance 1, .advance 1, .advance 1, .advance 1,
          .report 1 false ["k"], .poll 1, .finish 1 true, .elapse 1000000, .call "k" [], .advance 2,
          .advance 2, .advance 2, .advance 2, .cancel 2 true, .cleanup "k" ⟨0, "k", 0, []⟩] =
            some s ∧
      halfOpen s.breakers "k" = true ∧ ¬ Outstanding s.calls "k" ∧
      ∀ events s', run (Registry.step (.new 2 1000000 1000000)) s events = some s' →
        ¬ Allows (.new 2 1000000 1000000) s' "k") ∧
    ∃ s, run (Registry.step (.new 2 1000000 1000000)) .initial
        [.call "k" [], .advance 0, .advance 0, .call "k" [], .advance 1, .advance 1, .advance 1,
          .advance 1, .report 1 false [], .poll 1, .finish 1 true, .call "k" [], .advance 2,
          .advance 2,
          .advance 2, .advance 2, .report 2 false ["k"], .elapse 1000000, .advance 0, .advance 0] =
        some s ∧
      halfOpen s.breakers "k" = true ∧ ¬ Outstanding s.calls "k" ∧
      ∀ events s', run (Registry.step (.new 2 1000000 1000000)) s events = some s' →
        ¬ Allows (.new 2 1000000 1000000) s' "k" := by
  exact ⟨exists_stuck rfl (by decide +kernel), exists_stuck rfl (by decide +kernel)⟩

end HydraCache.Local.LoadProbe
