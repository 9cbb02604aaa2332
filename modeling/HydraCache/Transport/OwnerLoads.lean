import HydraCache.Lib.KeyMap
import HydraCache.Lib.Run

/-!
# Loads that requests share

An owner runs the loader of a key for the requests that its cache has no answer for. The first of
them starts a load and puts it in the map of the loads in flight; the next ones find it there and
wait for it too. Every one of them takes the key out of the map when the load has finished and it
goes on.

A request that goes on late takes out a load that was started in the meantime, so the next request
starts another one beside it (`loads_overlap`). Where no request goes on while the load in the map
is in progress, a key has one load in progress at most (`one_load_in_progress`).

Scope. A request that is refused or finds a value in the cache does not come to the map. What a load
returns is left out: one that finds nothing stores nothing, and the key can be loaded again.
-/

set_option autoImplicit false

namespace HydraCache.Transport

open Lib AList

/-- The loads are named by their numbers. A request in `load_shared` has its key and its load. -/
structure OwnerLoadService where
  inFlight : KeyMap String ℕ := ∅
  inProgress : KeyMap ℕ String := ∅
  started : ℕ := 0
  waiting : List (String × ℕ) := []

inductive OwnerLoadEvent where
  | loadShared (key : String)
  | finish (load : ℕ)
  | resume (request : ℕ)
  | cancel (request : ℕ)

namespace OwnerLoadService

section

variable (s : OwnerLoadService)

def loadShared (key : String) : OwnerLoadService :=
  match s.inFlight.lookup key with
  | some load => { s with waiting := s.waiting ++ [(key, load)] }
  | none =>
    { inFlight := s.inFlight.insert key s.started
      inProgress := s.inProgress.insert s.started key
      started := s.started + 1
      waiting := s.waiting ++ [(key, s.started)] }

def step : OwnerLoadEvent → Option OwnerLoadService
  | .loadShared key => some (s.loadShared key)
  | .finish load =>
    if load ∈ s.inProgress then some { s with inProgress := s.inProgress.erase load } else none
  | .resume request => s.waiting[request]?.bind fun (key, load) ↦
    if load ∈ s.inProgress then none
    else some { s with inFlight := s.inFlight.erase key, waiting := s.waiting.eraseIdx request }
  | .cancel request => some { s with waiting := s.waiting.eraseIdx request }

/-- A request goes on only if the load under its key, if there is one, is not in progress. -/
def LeavesInProgress : OwnerLoadEvent → Prop
  | .resume request => ∀ row ∈ s.waiting[request]?, ∀ load ∈ s.inFlight.lookup row.1,
    load ∉ s.inProgress
  | _ => True

instance : DecidablePred s.LeavesInProgress
  | .resume _ => inferInstanceAs (Decidable (∀ row ∈ _, ∀ load ∈ _, load ∉ _))
  | .loadShared _ | .finish _ | .cancel _ => .isTrue trivial

/-- The loads in progress are in the map. -/
def Shared : Prop :=
  ∀ load key, s.inProgress.lookup load = some key → s.inFlight.lookup key = some load

end

theorem shared_step {s s' : OwnerLoadService} {event : OwnerLoadEvent}
    (hleaves : s.LeavesInProgress event) (h : s.Shared) (hstep : s.step event = some s') :
    s'.Shared := by
  intro load key hload
  cases event with
  | loadShared name =>
    cases hstep
    unfold loadShared at hload ⊢
    cases hname : s.inFlight.lookup name with
    | some =>
      rw [hname] at hload
      exact h load key hload
    | none =>
      rw [hname] at hload
      obtain ⟨rfl, rfl⟩ | hold := KeyMap.of_lookup_insert hload
      · exact lookup_insert _
      · have hne : key ≠ name := by
          rintro rfl
          cases hname.symm.trans (h load key hold)
        exact (lookup_insert_ne hne).trans (h load key hold)
  | finish =>
    simp only [step] at hstep
    split_ifs at hstep
    cases hstep
    exact h load key (KeyMap.of_lookup_erase hload).2
  | resume request =>
    obtain ⟨row, hrow, hstep⟩ := Option.bind_eq_some_iff.mp hstep
    dsimp only at hstep
    split_ifs at hstep
    cases hstep
    have hfound := h load key hload
    have hne : key ≠ row.1 := by
      rintro rfl
      exact hleaves row hrow load hfound (lookup_isSome.mp (Option.isSome_of_eq_some hload))
    exact (lookup_erase_ne hne).trans hfound
  | cancel =>
    cases hstep
    exact h load key hload

/-- Assumes: no request goes on while the load under its key is in progress. Loads of one key that
are in progress at the same time are the same. -/
theorem one_load_in_progress (events : List OwnerLoadEvent) {s : OwnerLoadService}
    (hleaves : Along step LeavesInProgress {} events) (hrun : run step {} events = some s)
    {key : String} {load other : ℕ} (hload : s.inProgress.lookup load = some key)
    (hother : s.inProgress.lookup other = some key) : load = other := by
  have h : s.Shared := run_invariant (fun _ _ _ ↦ shared_step) (fun _ _ h ↦ by cases h) hleaves hrun
  exact Option.some.inj ((h load key hload).symm.trans (h other key hother))

/-- Two requests share a load and go on, and a third one starts another. -/
theorem one_load_in_progress_again :
    let events : List OwnerLoadEvent :=
      [.loadShared "k", .loadShared "k", .finish 0, .resume 0, .resume 0, .loadShared "k"]
    ∃ s, run step {} events = some s ∧ s.inProgress.lookup 1 = some "k" ∧
      ∀ other, s.inProgress.lookup other = some "k" → 1 = other := by
  intro events
  exact ⟨_, rfl, rfl, fun _ ↦ one_load_in_progress events (by decide) rfl rfl⟩

/-- Of two requests that share a load one goes on late. It takes out the load that a third request
has started, and a fourth one starts another. -/
theorem loads_overlap :
    ∃ s, run step {} [.loadShared "k", .loadShared "k", .finish 0, .resume 0, .loadShared "k",
      .resume 0, .loadShared "k"] = some s ∧
      s.inProgress.lookup 1 = some "k" ∧ s.inProgress.lookup 2 = some "k" :=
  ⟨_, rfl, rfl, rfl⟩

end OwnerLoadService

end HydraCache.Transport
