import HydraCache.Local.TagIndex

/-!
# The in-flight map and its callers

Concurrent loads of one key share one execution. The in-flight map holds, per key, the load that is
running, the generation snapshot it was started with and the number of handles on it. A caller
with the same snapshot joins the load through one more handle, unless no handle is left, which means
that every caller waiting for it was cancelled; it then puts a load of its own in its place. A load
is driven by the callers that hold a handle on it, removes its entry when it is done, and when the
last handle is dropped a cleanup is spawned that removes the entry if it is still idle.

A caller goes through the await points of `shared_load` one step at a time, and can be cancelled at
any of them. Handles are dropped by cancelled callers and by callers that have their result, inside
a Tokio runtime or outside one; outside, no cleanup can be spawned.

`transition_of_step` sorts the steps by what they do to callers, handles and the map; what holds in
every run is derived from it in `HydraCache.Local.SingleFlight`.

Scope. No generation advances here: the index operations of other calls that list and unlist keys
are the only ones that interleave. Every handle takes memory, so that the machine has no step that
brings the number of handles on one load to the top of its counter.
-/

set_option autoImplicit false

namespace HydraCache.Local.InFlight

open Lib Option

/-! ### The map -/

/-- How far a load is: its loader and its store, then the removal of its entry, then done. -/
inductive LoadPhase where
  | loading
  | finishing
  | finished
deriving DecidableEq

/-- A shared load: what it was started with, how far it is, and the handles on it. -/
structure Load where
  key : Key
  generation : LoadGenerationSnapshot
  phase : LoadPhase := .loading
  waiters : ℕ := 1

structure InFlightEntry where
  load : ℕ
  generation : LoadGenerationSnapshot
deriving DecidableEq

/-- The map, and all loads ever put into it, by number. -/
structure InFlightMap where
  entries : KeyMap Key InFlightEntry := ∅
  loads : ℕ → Load := fun _ ↦ { key := "", generation := ⟨0, "", 0, []⟩ }
  created : ℕ := 0

/-- One more handle, unless none is left or there is no room for one. -/
def tryAddWaiter (count : ℕ) : Option ℕ :=
  if count = 0 ∨ count = maxWord then none else some (count + 1)

namespace InFlightMap

section

variable (map : InFlightMap)

/-- Set the number of handles on a load. -/
def setWaiters (load count : ℕ) : InFlightMap :=
  { map with
    loads := Function.update map.loads load { map.loads load with waiters := count } }

/-- Set the phase of a load. -/
def setPhase (load : ℕ) (phase : LoadPhase) : InFlightMap :=
  { map with loads := Function.update map.loads load { map.loads load with phase } }

section

variable (key : Key) (generation : LoadGenerationSnapshot)

/-- Join the load under `key`, if it has the caller's generation and a handle left on it. -/
def getCurrent : Option (ℕ × InFlightMap) :=
  match map.entries.lookup key with
  | none => none
  | some entry =>
    if entry.generation = generation then
      (tryAddWaiter (map.loads entry.load).waiters).map fun count ↦
        (entry.load, map.setWaiters entry.load count)
    else none

/-- Put a new load under `key`, with one handle on it. -/
def insertLoad : InFlightMap where
  entries := map.entries.insert key ⟨map.created, generation⟩
  loads := Function.update map.loads map.created { key, generation }
  created := map.created + 1

/-- Join the load under `key`, or replace it with a new one. -/
def insertOrGetCurrent : ℕ × InFlightMap :=
  match map.getCurrent key generation with
  | some joined => joined
  | none => (map.created, map.insertLoad key generation)

def removeIfGenerationMatches : InFlightMap :=
  match map.entries.lookup key with
  | none => map
  | some entry =>
    if entry.generation = generation then { map with entries := map.entries.erase key } else map

def removeIfIdle : InFlightMap :=
  match map.entries.lookup key with
  | none => map
  | some entry =>
    if entry.generation = generation ∧ (map.loads entry.load).waiters = 0 then
      { map with entries := map.entries.erase key }
    else map

end

/-- Drop a handle; `true` if it was the last one on its load. -/
def dropHandle (load : ℕ) : Bool × InFlightMap :=
  let count := (map.loads load).waiters
  (count == 1, map.setWaiters load (count - 1))

end

end InFlightMap

/-! ### Callers -/

/-- Where a caller is in `shared_load`, and the generation it took. -/
inductive Position where
  | snapshotting
  | looking (generation : LoadGenerationSnapshot)
  | admitting (generation : LoadGenerationSnapshot)
  | inserting (generation : LoadGenerationSnapshot)
  | waiting (load : ℕ) (generation : LoadGenerationSnapshot)
  | returned
deriving DecidableEq

structure Caller where
  key : Key
  tags : List Tag
  position : Position := .snapshotting

namespace Caller

/-- The generation the caller took. -/
def generation (caller : Caller) : Option LoadGenerationSnapshot :=
  match caller.position with
  | .looking generation | .admitting generation | .inserting generation
  | .waiting _ generation => some generation
  | .snapshotting | .returned => none

/-- The load the caller holds a handle on. -/
def waitsOn (caller : Caller) : Option ℕ :=
  match caller.position with
  | .waiting load _ => some load
  | _ => none

/-- The caller at another place. -/
def moveTo (caller : Caller) (position : Position) : Caller := { caller with position }

end Caller

structure State where
  index : TagIndex
  map : InFlightMap := {}
  callers : List Caller := []
  cleanups : List (Key × LoadGenerationSnapshot) := []

/-- What happens next. -/
inductive Label where
  | call (key : Key) (tags : List Tag)
  | index (op : IndexOp)
  | step (caller : ℕ) (admitted : Bool)
  | drive (caller : ℕ) (progress : Bool)
  | finish (caller : ℕ) (inRuntime : Bool)
  | cancel (caller : ℕ) (inRuntime : Bool)
  | cleanup (key : Key) (generation : LoadGenerationSnapshot)

namespace State

section

variable (s : State) (i : ℕ) (caller : Caller)

/-- Move a caller. -/
def setCaller (position : Position) : State :=
  { s with callers := s.callers.set i (caller.moveTo position) }

/-- The caller has a handle on `load`, if there is room for one more. -/
def holdHandle (generation : LoadGenerationSnapshot) (joined : ℕ × InFlightMap) : Option State :=
  if (joined.2.loads joined.1).waiters < maxWord then
    some { s.setCaller i caller (.waiting joined.1 generation) with map := joined.2 }
  else none

/-- The caller is gone. The last handle on a load spawns a cleanup, if there is a runtime to spawn
it on. -/
def leave (inRuntime : Bool) : State :=
  match caller.position with
  | .waiting load generation =>
    let dropped := s.map.dropHandle load
    { s.setCaller i caller .returned with
      map := dropped.2
      cleanups := if dropped.1 && inRuntime then (caller.key, generation) :: s.cleanups
        else s.cleanups }
  | _ => s.setCaller i caller .returned

end

end State

/-- The next await point of `shared_load`. A caller whose load breaker is open returns at once. -/
def stepCaller (s : State) (i : ℕ) (caller : Caller) (admitted : Bool) : Option State :=
  match caller.position with
  | .snapshotting =>
    some (s.setCaller i caller (.looking (s.index.snapshot caller.key caller.tags)))
  | .looking generation =>
    match s.map.getCurrent caller.key generation with
    | some joined => s.holdHandle i caller generation joined
    | none => some (s.setCaller i caller (.admitting generation))
  | .admitting generation =>
    some (s.setCaller i caller (if admitted then .inserting generation else .returned))
  | .inserting generation =>
    s.holdHandle i caller generation (s.map.insertOrGetCurrent caller.key generation)
  | .waiting .. | .returned => none

/-- A waiting caller polls its load: it comes no further, comes to the removal of its entry, or
removes it and is finished. -/
def driveLoad (s : State) (load : ℕ) (progress : Bool) : Option State :=
  match (s.map.loads load).phase with
  | .loading => some (if progress then { s with map := s.map.setPhase load .finishing } else s)
  | .finishing =>
    let shared := s.map.loads load
    some { s with
      map := (s.map.removeIfGenerationMatches shared.key shared.generation).setPhase load
        .finished }
  | .finished => none

/-- One step of the machine. -/
def step (s : State) : Label → Option State
  | .call key tags => some { s with callers := s.callers ++ [{ key, tags }] }
  | .index op => if op.bumps then none else some { s with index := op.apply s.index }
  | .step i admitted => s.callers[i]?.bind fun caller ↦ stepCaller s i caller admitted
  | .drive i progress =>
    s.callers[i]?.bind fun caller ↦ caller.waitsOn.bind fun load ↦ driveLoad s load progress
  | .finish i inRuntime =>
    s.callers[i]?.bind fun caller ↦ caller.waitsOn.bind fun load ↦
      if (s.map.loads load).phase = .finished then some (s.leave i caller inRuntime) else none
  | .cancel i inRuntime =>
    s.callers[i]?.bind fun caller ↦
      if caller.position = .returned then none else some (s.leave i caller inRuntime)
  | .cleanup key generation =>
    if (key, generation) ∈ s.cleanups then
      some { s with
        map := s.map.removeIfIdle key generation
        cleanups := s.cleanups.erase (key, generation) }
    else none

/-! ### What the operations do to the map -/

namespace InFlightMap

section Fields

variable (map : InFlightMap) (load count : ℕ) (phase : LoadPhase) (other : ℕ)

@[simp] theorem setWaiters_key :
    ((map.setWaiters load count).loads other).key = (map.loads other).key := by
  by_cases h : other = load <;> simp [setWaiters, h]

@[simp] theorem setWaiters_generation :
    ((map.setWaiters load count).loads other).generation = (map.loads other).generation := by
  by_cases h : other = load <;> simp [setWaiters, h]

@[simp] theorem setWaiters_phase :
    ((map.setWaiters load count).loads other).phase = (map.loads other).phase := by
  by_cases h : other = load <;> simp [setWaiters, h]

theorem setWaiters_waiters : ((map.setWaiters load count).loads other).waiters =
    if other = load then count else (map.loads other).waiters := by
  by_cases h : other = load <;> simp [setWaiters, h]

@[simp] theorem setPhase_key :
    ((map.setPhase load phase).loads other).key = (map.loads other).key := by
  by_cases h : other = load <;> simp [setPhase, h]

@[simp] theorem setPhase_generation :
    ((map.setPhase load phase).loads other).generation = (map.loads other).generation := by
  by_cases h : other = load <;> simp [setPhase, h]

@[simp] theorem setPhase_waiters :
    ((map.setPhase load phase).loads other).waiters = (map.loads other).waiters := by
  by_cases h : other = load <;> simp [setPhase, h]

theorem setPhase_phase : ((map.setPhase load phase).loads other).phase =
    if other = load then phase else (map.loads other).phase := by
  by_cases h : other = load <;> simp [setPhase, h]

end Fields

variable {map : InFlightMap} {key : Key} {generation : LoadGenerationSnapshot} {load : ℕ}
  {name : Key}

theorem getCurrent_eq_some {joined : InFlightMap}
    (h : map.getCurrent key generation = some (load, joined)) :
    map.entries.lookup key = some ⟨load, generation⟩ ∧ (map.loads load).waiters ≠ 0 ∧
      joined = map.setWaiters load ((map.loads load).waiters + 1) := by
  unfold getCurrent at h
  split at h
  · cases h
  · rename_i entry hentry
    split_ifs at h with hgen
    obtain ⟨count, hcount, heq⟩ := map_eq_some_iff.mp h
    obtain ⟨rfl, rfl⟩ := heq
    unfold tryAddWaiter at hcount
    split_ifs at hcount with hfull
    cases hcount
    refine ⟨?_, fun hzero ↦ hfull (.inl hzero), rfl⟩
    rw [hentry, ← hgen]

/-- A load that cannot be joined under its own generation has no handle left, or no room. -/
theorem getCurrent_eq_none (h : map.getCurrent key generation = none)
    (hentry : map.entries.lookup key = some ⟨load, generation⟩) :
    (map.loads load).waiters = 0 ∨ (map.loads load).waiters = maxWord := by
  rw [getCurrent, hentry] at h
  simp only [if_true, map_eq_none_iff, tryAddWaiter] at h
  split_ifs at h with hfull
  exact hfull

theorem removeIfGenerationMatches_loads (map : InFlightMap) (key : Key)
    (generation : LoadGenerationSnapshot) :
    (map.removeIfGenerationMatches key generation).loads = map.loads ∧
      (map.removeIfGenerationMatches key generation).created = map.created := by
  unfold removeIfGenerationMatches
  split
  · exact ⟨rfl, rfl⟩
  · split_ifs <;> exact ⟨rfl, rfl⟩

theorem removeIfIdle_loads (map : InFlightMap) (key : Key) (generation : LoadGenerationSnapshot) :
    (map.removeIfIdle key generation).loads = map.loads ∧
      (map.removeIfIdle key generation).created = map.created := by
  unfold removeIfIdle
  split
  · exact ⟨rfl, rfl⟩
  · split_ifs <;> exact ⟨rfl, rfl⟩

/-- Another key keeps its entry. -/
theorem lookup_removeIfGenerationMatches_of_ne (h : key ≠ name) :
    (map.removeIfGenerationMatches name generation).entries.lookup key =
      map.entries.lookup key := by
  unfold removeIfGenerationMatches
  split
  · rfl
  · split_ifs
    · exact AList.lookup_erase_ne h
    · rfl

theorem lookup_of_lookup_removeIfGenerationMatches {entry : InFlightEntry}
    (h : (map.removeIfGenerationMatches name generation).entries.lookup key = some entry) :
    map.entries.lookup key = some entry := by
  by_cases hkey : key = name
  · subst hkey
    unfold removeIfGenerationMatches at h
    split at h
    · exact h
    · split_ifs at h
      · simp [AList.lookup_erase] at h
      · exact h
  · rwa [lookup_removeIfGenerationMatches_of_ne hkey] at h

/-- A cleanup leaves an entry alone, or removes it when it has no handle left. -/
theorem lookup_removeIfIdle (map : InFlightMap) (key name : Key)
    (generation : LoadGenerationSnapshot) :
    (map.removeIfIdle name generation).entries.lookup key = map.entries.lookup key ∨
      (key = name ∧ (map.removeIfIdle name generation).entries.lookup key = none ∧
        ∃ entry, map.entries.lookup key = some entry ∧ (map.loads entry.load).waiters = 0) := by
  unfold removeIfIdle
  split
  · exact .inl rfl
  · rename_i entry hentry
    split_ifs with hidle
    · by_cases hkey : key = name
      · subst hkey
        exact .inr ⟨rfl, AList.lookup_erase _ _, entry, hentry, hidle.2⟩
      · exact .inl (AList.lookup_erase_ne hkey)
    · exact .inl rfl

/-- A cleanup removes an idle entry of its generation. -/
theorem lookup_removeIfIdle_of_idle
    (h : map.entries.lookup key = some ⟨load, generation⟩) (hidle : (map.loads load).waiters = 0) :
    (map.removeIfIdle key generation).entries.lookup key = none := by
  rw [removeIfIdle, h]
  simp [hidle]

end InFlightMap

/-! ### What a step does -/

/-- Handles are dropped inside a runtime. -/
def DropsInRuntime (_ : State) : Label → Prop
  | .finish _ inRuntime | .cancel _ inRuntime => inRuntime = true
  | _ => True

/-- Caller `i` holds a handle on `load`. -/
def State.Waits (s : State) (i load : ℕ) : Prop :=
  ∃ caller, s.callers[i]? = some caller ∧ caller.waitsOn = some load

section

variable (s : State) (label : Label)

/-- The steps of the machine by what they do to callers, handles and the map. -/
inductive Transition : State → Prop where
  | call {key tags} (hlabel : label = .call key tags) :
      Transition { s with callers := s.callers ++ [{ key, tags }] }
  | index {op : IndexOp} (hop : op.bumps = false) :
      Transition { s with index := op.apply s.index }
  /-- A caller without a handle moves on, with the generation it took or a new one. -/
  | move {i caller position} (hcaller : s.callers[i]? = some caller)
      (hbefore : caller.waitsOn = none) (hafter : (caller.moveTo position).waitsOn = none)
      (htaken : ∀ taken, (caller.moveTo position).generation = some taken →
        caller.generation = some taken ∨ taken = s.index.snapshot caller.key caller.tags) :
      Transition (s.setCaller i caller position)
  /-- A caller without a handle takes one on the load in the map. -/
  | join {i caller taken load}
      (hcaller : s.callers[i]? = some caller) (hbefore : caller.waitsOn = none)
      (htaken : caller.generation = some taken)
      (hentry : s.map.entries.lookup caller.key = some ⟨load, taken⟩)
      (hwaiters : (s.map.loads load).waiters ≠ 0)
      (hroom : (s.map.loads load).waiters + 1 < maxWord) :
      Transition
        { s.setCaller i caller (.waiting load taken) with
          map := s.map.setWaiters load ((s.map.loads load).waiters + 1) }
  /-- A caller without a handle puts a load of its own in the map. -/
  | insert {i caller taken}
      (hcaller : s.callers[i]? = some caller) (hbefore : caller.waitsOn = none)
      (htaken : caller.generation = some taken)
      (hnone : s.map.getCurrent caller.key taken = none) :
      Transition
        { s.setCaller i caller (.waiting s.map.created taken) with
          map := s.map.insertLoad caller.key taken }
  /-- A caller drops its handle. -/
  | drop {i caller load taken inRuntime}
      (hcaller : s.callers[i]? = some caller) (hposition : caller.position = .waiting load taken)
      (hlabel : DropsInRuntime s label → inRuntime = true) :
      Transition
        { s.setCaller i caller .returned with
          map := s.map.setWaiters load ((s.map.loads load).waiters - 1)
          cleanups := if (s.map.loads load).waiters == 1 && inRuntime then
              (caller.key, taken) :: s.cleanups else s.cleanups }
  | wait : Transition s
  | loaded {load} (hphase : (s.map.loads load).phase = .loading) :
      Transition { s with map := s.map.setPhase load .finishing }
  /-- A load some caller waits for removes its entry. -/
  | finished {i load} (hwaits : s.Waits i load)
      (hphase : (s.map.loads load).phase = .finishing) :
      Transition
        { s with
          map := (s.map.removeIfGenerationMatches (s.map.loads load).key
            (s.map.loads load).generation).setPhase load .finished }
  | cleanup {key taken} :
      Transition
        { s with
          map := s.map.removeIfIdle key taken
          cleanups := s.cleanups.erase (key, taken) }

end

section Transitions

variable {s s' : State} {label : Label} {i : ℕ} {caller : Caller}

theorem Caller.waitsOn_eq_none (hpos : ∀ load taken, caller.position ≠ .waiting load taken) :
    caller.waitsOn = none := by
  unfold waitsOn
  split
  · rename_i load taken hwait
    exact (hpos load taken hwait).elim
  · rfl

section

variable (hcall : s.callers[i]? = some caller)
include hcall

theorem transition_of_join {taken : LoadGenerationSnapshot} {joined : ℕ × InFlightMap}
    (hpre : caller.waitsOn = none) (htaken : caller.generation = some taken)
    (hjoin : s.map.getCurrent caller.key taken = some joined)
    (h : s.holdHandle i caller taken joined = some s') : Transition s label s' := by
  obtain ⟨load, map⟩ := joined
  obtain ⟨hentry, hwait, rfl⟩ := InFlightMap.getCurrent_eq_some hjoin
  unfold State.holdHandle at h
  split_ifs at h with hroom
  cases h
  rw [InFlightMap.setWaiters_waiters, if_pos rfl] at hroom
  exact .join hcall hpre htaken hentry hwait hroom

theorem transition_of_stepCaller {admitted : Bool}
    (h : stepCaller s i caller admitted = some s') : Transition s label s' := by
  have hwaits := @Caller.waitsOn_eq_none caller
  unfold stepCaller at h
  split at h
  case h_1 hpos =>
    cases h
    refine .move hcall (hwaits (by simp [hpos])) rfl fun taken htaken ↦ ?_
    cases htaken
    exact .inr rfl
  case h_2 taken hpos =>
    have hpre := hwaits (by simp [hpos])
    have htaken : caller.generation = some taken := by rw [Caller.generation, hpos]
    split at h
    · rename_i joined hjoin
      exact transition_of_join hcall hpre htaken hjoin h
    · cases h
      exact .move hcall hpre rfl fun _ h ↦ .inl (htaken.trans h)
  case h_3 taken hpos =>
    have hpre := hwaits (by simp [hpos])
    have htaken : caller.generation = some taken := by rw [Caller.generation, hpos]
    cases h
    cases admitted
    · exact .move hcall hpre rfl fun _ h ↦ by cases h
    · exact .move hcall hpre rfl fun _ h ↦ .inl (htaken.trans h)
  case h_4 taken hpos =>
    have hpre := hwaits (by simp [hpos])
    have htaken : caller.generation = some taken := by rw [Caller.generation, hpos]
    unfold InFlightMap.insertOrGetCurrent at h
    split at h
    · rename_i joined hjoin
      exact transition_of_join hcall hpre htaken hjoin h
    · rename_i hnone
      unfold State.holdHandle at h
      split_ifs at h
      cases h
      exact .insert hcall hpre htaken hnone
  case h_5 => cases h
  case h_6 => cases h

theorem transition_of_leave {inRuntime : Bool}
    (hlabel : DropsInRuntime s label → inRuntime = true) :
    Transition s label (s.leave i caller inRuntime) := by
  unfold State.leave
  split
  · rename_i load taken hpos
    exact .drop hcall hpos hlabel
  · rename_i hpos
    exact .move hcall (Caller.waitsOn_eq_none hpos) rfl fun _ h ↦ by cases h

end

theorem transition_of_step (h : step s label = some s') : Transition s label s' := by
  cases label with
  | call =>
    cases h
    exact .call rfl
  | index =>
    dsimp only [step] at h
    split_ifs at h with hop
    cases h
    exact .index (Bool.eq_false_iff.mpr hop)
  | step =>
    obtain ⟨caller, hcall, hstep⟩ := bind_eq_some_iff.mp h
    exact transition_of_stepCaller hcall hstep
  | drive =>
    obtain ⟨caller, hcall, hwait⟩ := bind_eq_some_iff.mp h
    obtain ⟨load, hload, hdrive⟩ := bind_eq_some_iff.mp hwait
    unfold driveLoad at hdrive
    split at hdrive
    · rename_i hphase
      cases hdrive
      split_ifs
      · exact .loaded hphase
      · exact .wait
    · rename_i hphase
      cases hdrive
      exact .finished ⟨caller, hcall, hload⟩ hphase
    · cases hdrive
  | finish =>
    obtain ⟨caller, hcall, hwait⟩ := bind_eq_some_iff.mp h
    obtain ⟨load, hload, hfinish⟩ := bind_eq_some_iff.mp hwait
    split_ifs at hfinish
    cases hfinish
    exact transition_of_leave hcall id
  | cancel =>
    obtain ⟨caller, hcall, hcancel⟩ := bind_eq_some_iff.mp h
    split_ifs at hcancel
    cases hcancel
    exact transition_of_leave hcall id
  | cleanup =>
    dsimp only [step] at h
    split_ifs at h
    cases h
    exact .cleanup

end Transitions

end HydraCache.Local.InFlight
