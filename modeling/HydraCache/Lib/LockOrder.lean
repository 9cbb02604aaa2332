import Mathlib.Order.RelClasses
import HydraCache.Lib.Run

/-!
# Threads that take mutexes in order

A program as far as its mutexes go: it takes one and holds it over a part of itself, goes on to the
next part, or branches (`Guarded`). Threads run such programs side by side (`Pool`), and one that
comes to a mutex of another thread waits. The mutexes have ranks, and a program climbs if it takes a
mutex only while all those it holds have lower ranks (`Guarded.Climbs`, which can be computed). If
every program climbs, then in every state that the threads reach none of them waits for itself, over
whatever chain of others (`Orderly.no_wait_cycle`), and for each thread that is not through with its
program there is one that can go on, itself or one that it waits for (`Orderly.exists_advance`).
-/

set_option autoImplicit false

namespace HydraCache.Lib

open Function

variable {ι κ μ : Type*}

/-! ### Programs -/

/-- The mutexes that a program takes. -/
inductive Guarded (μ : Type*) where
  | pass
  | hold (mutex : μ) (body : Guarded μ)
  | next (first second : Guarded μ)
  | either (first second : Guarded μ)

/-- What a thread has still to do: a program to run, or a mutex to give back. -/
inductive Frame (μ : Type*) where
  | run (program : Guarded μ)
  | release (mutex : μ)

/-- The mutexes that are to be given back. -/
def heldBy : List (Frame μ) → List μ
  | [] => []
  | .run _ :: stack => heldBy stack
  | .release mutex :: stack => mutex :: heldBy stack

section Climbs

variable {β : Type*} [Preorder β] (rank : μ → β)

/-- A mutex is taken only while all mutexes that are held have lower ranks. -/
def Guarded.Climbs : (held : List μ) → Guarded μ → Prop
  | _, .pass => True
  | held, .hold mutex body => (∀ other ∈ held, rank other < rank mutex) ∧
    body.Climbs (mutex :: held)
  | held, .next first second | held, .either first second => first.Climbs held ∧ second.Climbs held

instance Guarded.Climbs.decidable [DecidableLT β] :
    ∀ (held : List μ) (program : Guarded μ), Decidable (program.Climbs rank held)
  | _, .pass => .isTrue trivial
  | held, .hold mutex body =>
    have := Guarded.Climbs.decidable (mutex :: held) body
    inferInstanceAs (Decidable (_ ∧ body.Climbs rank (mutex :: held)))
  | held, .next first second | held, .either first second =>
    have := Guarded.Climbs.decidable held first
    have := Guarded.Climbs.decidable held second
    inferInstanceAs (Decidable (first.Climbs rank held ∧ second.Climbs rank held))

/-- Every program that a thread has still to run climbs over what the thread holds then. -/
def StackClimbs : List (Frame μ) → Prop
  | [] => True
  | .run program :: stack => program.Climbs rank (heldBy stack) ∧ StackClimbs stack
  | .release _ :: stack => StackClimbs stack

end Climbs

/-! ### Threads -/

structure Pool (ι μ : Type*) where
  stack : ι → List (Frame μ)
  owner : μ → Option ι

namespace Pool

/-- No thread runs anything. -/
def idle : Pool ι μ where
  stack _ := []
  owner _ := none

end Pool

/-- A thread starts a call, or does the next thing of it; at a branch it is told which one to
take. -/
inductive PoolEvent (ι κ : Type*) where
  | start (thread : ι) (call : κ)
  | advance (thread : ι) (second : Bool)

namespace Pool

variable [DecidableEq ι] [DecidableEq μ] (program : κ → Guarded μ)

@[simps] def setStack (s : Pool ι μ) (thread : ι) (stack : List (Frame μ)) : Pool ι μ :=
  { s with stack := Function.update s.stack thread stack }

@[simps] def setOwner (s : Pool ι μ) (mutex : μ) (thread : Option ι) : Pool ι μ :=
  { s with owner := Function.update s.owner mutex thread }

/-- A thread that has nothing to do starts a call. One that comes to a mutex takes it if it has no
owner, and cannot go on otherwise, be it the owner itself. -/
def step (s : Pool ι μ) : PoolEvent ι κ → Option (Pool ι μ)
  | .start thread call =>
    match s.stack thread with
    | [] => some (s.setStack thread [.run (program call)])
    | _ :: _ => none
  | .advance thread second =>
    match s.stack thread with
    | [] => none
    | .run .pass :: stack => some (s.setStack thread stack)
    | .run (.hold mutex body) :: stack =>
      if s.owner mutex = none then
        some ((s.setStack thread (.run body :: .release mutex :: stack)).setOwner mutex
          (some thread))
      else none
    | .run (.next first rest) :: stack =>
      some (s.setStack thread (.run first :: .run rest :: stack))
    | .run (.either first other) :: stack =>
      some (s.setStack thread (.run (if second then other else first) :: stack))
    | .release mutex :: stack => some ((s.setStack thread stack).setOwner mutex none)

/-- The mutex that the thread has to take next, if it is at one. -/
def awaited (s : Pool ι μ) (thread : ι) : Option μ :=
  match s.stack thread with
  | .run (.hold mutex _) :: _ => some mutex
  | _ => none

/-- The thread is at a mutex of the other. -/
def WaitsFor (s : Pool ι μ) (thread other : ι) : Prop :=
  (s.awaited thread).bind s.owner = some other

/-- The thread can do the next thing of its call. -/
def CanAdvance (s : Pool ι μ) (thread : ι) : Prop :=
  ∃ second, (step program s (.advance thread second)).isSome

/-! ### Order -/

section Orderly

variable {β : Type*} [Preorder β] {rank : μ → β} {s s' : Pool ι μ} {event : PoolEvent ι κ}
  {thread : ι} {stack : List (Frame μ)}

/-- All programs climb, and the owner of a mutex is to give it back. -/
structure Orderly (rank : μ → β) (s : Pool ι μ) : Prop where
  climbs : ∀ thread, StackClimbs rank (s.stack thread)
  owned : ∀ mutex thread, s.owner mutex = some thread → mutex ∈ heldBy (s.stack thread)

omit [DecidableEq ι] [DecidableEq μ] in
theorem orderly_idle : Orderly rank (idle : Pool ι μ) := ⟨fun _ ↦ trivial, fun _ _ h ↦ by cases h⟩

omit [DecidableEq μ] in
theorem climbs_setStack (h : Orderly rank s) (hclimb : StackClimbs rank stack)
    (other : ι) : StackClimbs rank ((s.setStack thread stack).stack other) := by
  by_cases heq : other = thread
  · rwa [heq, setStack_stack, update_self]
  · rw [setStack_stack, update_of_ne heq]
    exact h.climbs other

omit [DecidableEq μ] in
/-- A thread goes on with another stack that holds what the one before held. -/
theorem Orderly.setStack (h : Orderly rank s) (hclimb : StackClimbs rank stack)
    (hheld : ∀ mutex, s.owner mutex = some thread → mutex ∈ heldBy stack) :
    Orderly rank (s.setStack thread stack) := by
  refine ⟨climbs_setStack h hclimb, fun mutex other howner ↦ ?_⟩
  by_cases heq : other = thread
  · rw [heq, setStack_stack, update_self]
    exact hheld mutex (heq ▸ howner)
  · rw [setStack_stack, update_of_ne heq]
    exact h.owned mutex other howner

variable {mutex : μ} {other : ι}

theorem Orderly.take (h : Orderly rank s) {body : Guarded μ}
    (hstack : s.stack thread = .run (.hold mutex body) :: stack) :
    Orderly rank
      ((s.setStack thread (.run body :: .release mutex :: stack)).setOwner mutex
      (some thread)) := by
  have hclimb := h.climbs thread
  rw [hstack] at hclimb
  have hset : Orderly rank (s.setStack thread (.run body :: .release mutex :: stack)) := by
    refine h.setStack ⟨hclimb.1.2, hclimb.2⟩ fun other howner ↦ List.mem_cons_of_mem _ ?_
    have howned := h.owned other thread howner
    rwa [hstack] at howned
  refine ⟨hset.climbs, fun other holder howner ↦ ?_⟩
  by_cases heq : other = mutex
  · rw [heq, setOwner_owner, update_self] at howner
    cases howner
    rw [heq, setOwner_stack, setStack_stack, update_self]
    exact List.mem_cons_self
  · rw [setOwner_owner, update_of_ne heq] at howner
    exact hset.owned other holder howner

theorem Orderly.giveBack (h : Orderly rank s) (hstack : s.stack thread = .release mutex :: stack) :
    Orderly rank ((s.setStack thread stack).setOwner mutex none) := by
  have hclimb := h.climbs thread
  rw [hstack] at hclimb
  refine ⟨climbs_setStack h hclimb, fun other holder howner ↦ ?_⟩
  by_cases heq : other = mutex
  · simp [heq] at howner
  rw [setOwner_owner, update_of_ne heq] at howner
  have howned := h.owned other holder howner
  rw [setOwner_stack, setStack_stack]
  by_cases hthread : holder = thread
  · rw [hthread, hstack] at howned
    rw [hthread, update_self]
    exact (List.mem_cons.mp howned).resolve_left heq
  · rwa [update_of_ne hthread]

variable {program} {awaited : μ}

/-- Assumes: every program climbs from nothing. -/
theorem Orderly.step (hprogram : ∀ call, (program call).Climbs rank []) (h : Orderly rank s)
    (hstep : s.step program event = some s') : Orderly rank s' := by
  have hclimb {thread stack} (hstack : s.stack thread = stack) : StackClimbs rank stack :=
    hstack ▸ h.climbs thread
  have howned {thread stack} (hstack : s.stack thread = stack) (mutex : μ)
      (howner : s.owner mutex = some thread) : mutex ∈ heldBy stack :=
    hstack ▸ h.owned mutex thread howner
  revert hstep
  fun_cases Pool.step <;> rintro ⟨⟩
  case case1 call hstack =>
    exact h.setStack ⟨hprogram call, trivial⟩ fun mutex howner ↦ by cases howned hstack mutex howner
  case case5 hstack _ => exact h.take hstack
  case case9 hstack => exact h.giveBack hstack
  case case4 hstack =>
    have hheld := howned hstack
    exact h.setStack (hclimb hstack).2 hheld
  case case7 hstack =>
    obtain ⟨⟨hfirst, hrest⟩, hclimbs⟩ := hclimb hstack
    have hheld := howned hstack
    exact h.setStack ⟨hfirst, hrest, hclimbs⟩ hheld
  case case8 second _ _ _ hstack =>
    obtain ⟨⟨hfirst, hother⟩, hclimbs⟩ := hclimb hstack
    have hheld := howned hstack
    refine h.setStack ⟨?_, hclimbs⟩ hheld
    cases second
    · exact hfirst
    · exact hother

theorem orderly_of_run (hprogram : ∀ call, (program call).Climbs rank [])
    {events : List (PoolEvent ι κ)} (hrun : run (Pool.step program) idle events = some s) :
    Orderly rank s :=
  invariant_of_run (I := Orderly rank) (fun _ _ _ h hstep ↦ h.step hprogram hstep) orderly_idle hrun

/-! ### Nobody waits for itself -/

omit [DecidableEq ι] [DecidableEq μ] in
theorem awaited_eq_some (h : s.awaited thread = some mutex) :
    ∃ body stack, s.stack thread = .run (.hold mutex body) :: stack := by
  unfold awaited at h
  split at h
  · rename_i found body stack hstack
    cases h
    exact ⟨body, stack, hstack⟩
  · cases h

omit [DecidableEq ι] [DecidableEq μ] in
/-- A mutex that its owner holds ranks below the one that the owner waits for. -/
theorem Orderly.rank_lt (h : Orderly rank s)
    (howner : s.owner mutex = some other) (hawait : s.awaited other = some awaited) :
    rank mutex < rank awaited := by
  obtain ⟨body, stack, hstack⟩ := awaited_eq_some hawait
  have hclimb := h.climbs other
  have howned := h.owned mutex other howner
  rw [hstack] at hclimb howned
  exact hclimb.1.1 mutex howned

omit [DecidableEq ι] [DecidableEq μ] in
/-- Along a chain of waiting threads the ranks of what they wait for go up. -/
theorem Orderly.rank_lt_of_chain (h : Orderly rank s)
    (hchain : Relation.TransGen s.WaitsFor thread other) (hthread : s.awaited thread = some mutex)
    (hother : s.awaited other = some awaited) : rank mutex < rank awaited := by
  induction hchain generalizing awaited with
  | single hwaits =>
    obtain ⟨found, hfound, howner⟩ := Option.bind_eq_some_iff.mp hwaits
    rw [Option.some_inj.mp (hthread.symm.trans hfound)]
    exact h.rank_lt howner hother
  | tail _ hwaits ih =>
    obtain ⟨found, hfound, howner⟩ := Option.bind_eq_some_iff.mp hwaits
    exact (ih hfound).trans (h.rank_lt howner hother)

omit [DecidableEq ι] [DecidableEq μ] in
theorem Orderly.no_wait_cycle (h : Orderly rank s) (thread : ι) :
    ¬ Relation.TransGen s.WaitsFor thread thread := by
  intro hchain
  obtain ⟨next, hwaits, -⟩ := Relation.TransGen.head'_iff.mp hchain
  obtain ⟨mutex, hawait, -⟩ := Option.bind_eq_some_iff.mp hwaits
  exact lt_irrefl _ (h.rank_lt_of_chain hchain hawait hawait)

/-! ### Somebody can go on -/

/-- A thread that is not through can go on, unless the mutex that it is at has an owner. -/
theorem canAdvance_or_awaits (program : κ → Guarded μ) (hstack : s.stack thread ≠ []) :
    s.CanAdvance program thread ∨
      ∃ mutex other, s.awaited thread = some mutex ∧ s.owner mutex = some other := by
  cases hfound : s.stack thread with
  | nil => exact absurd hfound hstack
  | cons frame =>
    cases frame with
    | release =>
      refine .inl ⟨false, ?_⟩
      rw [Pool.step, hfound]
      rfl
    | run body =>
      cases body with
      | pass | next | either =>
        refine .inl ⟨false, ?_⟩
        rw [Pool.step, hfound]
        rfl
      | hold mutex =>
        cases howner : s.owner mutex with
        | none =>
          refine .inl ⟨false, ?_⟩
          rw [Pool.step, hfound]
          dsimp only
          rw [if_pos howner]
          rfl
        | some other =>
          refine .inr ⟨mutex, other, ?_, howner⟩
          rw [awaited, hfound]

theorem Orderly.exists_advance_of_owner [WellFoundedGT β] (h : Orderly rank s)
    (hawait : s.awaited thread = some mutex) (howner : s.owner mutex = some other) :
    ∃ last, Relation.ReflTransGen s.WaitsFor thread last ∧ s.CanAdvance program last := by
  induction hrank : rank mutex using WellFoundedGT.induction generalizing thread mutex other with
  | ind _ ih =>
    have hstack : s.stack other ≠ [] := by
      intro hnil
      have howned := h.owned mutex other howner
      rw [hnil] at howned
      cases howned
    have hwaits : s.WaitsFor thread other := Option.bind_eq_some_iff.mpr ⟨mutex, hawait, howner⟩
    rcases canAdvance_or_awaits program hstack with hadv | ⟨awaited, next, hnext, howner'⟩
    · exact ⟨other, .single hwaits, hadv⟩
    · obtain ⟨last, hchain, hadv⟩ := ih _ (hrank ▸ h.rank_lt howner hnext) hnext howner' rfl
      exact ⟨last, .head hwaits hchain, hadv⟩

theorem Orderly.exists_advance [WellFoundedGT β] (h : Orderly rank s)
    (hstack : s.stack thread ≠ []) :
    ∃ last, Relation.ReflTransGen s.WaitsFor thread last ∧ s.CanAdvance program last := by
  rcases canAdvance_or_awaits program hstack with hadv | ⟨mutex, other, hawait, howner⟩
  · exact ⟨thread, .refl, hadv⟩
  · exact h.exists_advance_of_owner hawait howner

end Orderly

end Pool

end HydraCache.Lib
