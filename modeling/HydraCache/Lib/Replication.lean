import HydraCache.Lib.Run
import Mathlib.Data.Finset.Lattice.Basic
import Mathlib.Order.Bounds.Basic

/-!
# Replicas that merge their states

The states of a replicated value form a join semilattice. Any number of replicas change their own
state by local updates, send it, and join in the states that others have sent. What was sent stays
in the network, so a message can arrive late, twice, out of order or not at all.

Beside its state a replica carries, for the proofs only, the updates that have reached it: each as
the operation and the state it was applied to. The state is the least upper bound of what those
updates made (`isLUB_state`), as long as no update loses anything. Replicas that have received the
same updates are then equal (`replicas_converge`), and so are the results of merging the same states
in any order and number (`foldl_sup_eq_of_mem_iff`). `replica_invariant` is the rule for what every
replica and every message satisfies.
-/

set_option autoImplicit false

namespace HydraCache.Lib

variable {ι α ω : Type*}

/-- A state, with the updates that went into it. -/
structure Replica (α ω : Type*) where
  state : α
  updates : Set (ω × α)

/-- The replicas, what they have sent, and all the updates that were made. -/
structure ReplicaNet (ι α ω : Type*) where
  replicas : ι → Replica α ω
  sent : List (Replica α ω)
  log : Set (ω × α)

inductive ReplicaEvent (ι ω : Type*) where
  | update (replica : ι) (op : ω)
  | send (replica : ι)
  | receive (replica : ι) (message : ℕ)

namespace Replica

/-- A local update. -/
def update (effect : α → ω → α) (replica : Replica α ω) (op : ω) : Replica α ω where
  state := effect replica.state op
  updates := insert (op, replica.state) replica.updates

/-- Another replica's state joined in. -/
def merge [Max α] (replica message : Replica α ω) : Replica α ω where
  state := replica.state ⊔ message.state
  updates := replica.updates ∪ message.updates

end Replica

namespace ReplicaNet

/-- All replicas start from the same state. -/
def initial (state : α) : ReplicaNet ι α ω where
  replicas _ := ⟨state, ∅⟩
  sent := []
  log := ∅

variable [DecidableEq ι]

def step [Max α] (effect : α → ω → α) (net : ReplicaNet ι α ω) :
    ReplicaEvent ι ω → Option (ReplicaNet ι α ω)
  | .update i op =>
    some { net with
      replicas := Function.update net.replicas i ((net.replicas i).update effect op)
      log := insert (op, (net.replicas i).state) net.log }
  | .send i => some { net with sent := net.sent ++ [net.replicas i] }
  | .receive i message =>
    net.sent[message]?.map fun sent ↦
      { net with replicas := Function.update net.replicas i ((net.replicas i).merge sent) }

/-- Every replica and every message satisfies `P`. -/
def All (P : Replica α ω → Prop) (net : ReplicaNet ι α ω) : Prop :=
  (∀ i, P (net.replicas i)) ∧ ∀ message ∈ net.sent, P message

variable {effect : α → ω → α} {net net' : ReplicaNet ι α ω} {P : Replica α ω → Prop}

/-- What an update may do, and what a merge does, keep `P`: so does any event. -/
theorem all_step [Max α] {event : ReplicaEvent ι ω}
    (hupd : ∀ i op, event = .update i op → P (net.replicas i) →
      P ((net.replicas i).update effect op))
    (hmerge : ∀ replica message, P replica → P message → P (replica.merge message))
    (hall : net.All P) (hstep : step effect net event = some net') : net'.All P := by
  cases event with
  | update i op =>
    cases hstep
    refine ⟨(Function.forall_update_iff net.replicas fun _ ↦ P).mpr ⟨?_, fun j _ ↦ hall.1 j⟩,
      hall.2⟩
    exact hupd i op rfl (hall.1 i)
  | send i =>
    cases hstep
    exact ⟨hall.1, List.forall_mem_append.mpr ⟨hall.2, List.forall_mem_singleton.mpr (hall.1 i)⟩⟩
  | receive i index =>
    obtain ⟨message, hmsg, rfl⟩ := Option.map_eq_some_iff.mp hstep
    have hmem : message ∈ net.sent := List.mem_of_getElem? hmsg
    refine ⟨(Function.forall_update_iff net.replicas fun _ ↦ P).mpr ⟨?_, fun j _ ↦ hall.1 j⟩,
      hall.2⟩
    exact hmerge _ _ (hall.1 i) (hall.2 message hmem)

/-- Assumes: a property of the first state that updates and merges keep. All replicas have it in
every run. -/
theorem replica_invariant [Max α] {start : α} (hstart : P ⟨start, ∅⟩)
    (hupd : ∀ replica op, P replica → P (replica.update effect op))
    (hmerge : ∀ replica message, P replica → P message → P (replica.merge message))
    {events : List (ReplicaEvent ι ω)}
    (hrun : run (step effect) (initial start) events = some net) :
    net.All P := by
  refine invariant_of_run (fun net event net' hall hstep ↦ ?_)
    ⟨fun _ ↦ hstart, fun _ h ↦ absurd h List.not_mem_nil⟩ hrun
  exact all_step (fun i op _ ↦ hupd (net.replicas i) op) hmerge hall hstep

/-! ### Convergence -/

section Convergence

variable (ι) in
/-- Replicas that have received the same updates are equal, and merging the same states in any order
and number comes to the same. -/
structure Converges [Max α] (effect : α → ω → α) (start : α) : Prop where
  replicas : ∀ events (net : ReplicaNet ι α ω), run (step effect) (initial start) events =
    some net → ∀ i j, (net.replicas i).updates = (net.replicas j).updates →
      (net.replicas i).state = (net.replicas j).state
  merges : ∀ states others : List α, (∀ state, state ∈ states ↔ state ∈ others) →
    states.foldl (· ⊔ ·) start = others.foldl (· ⊔ ·) start

variable [SemilatticeSup α]

theorem foldl_sup_le_iff {states : List α} {start bound : α} :
    states.foldl (· ⊔ ·) start ≤ bound ↔ start ≤ bound ∧ ∀ state ∈ states, state ≤ bound := by
  induction states generalizing start with
  | nil => simp
  | cons state states ih => rw [List.foldl_cons, ih, sup_le_iff, List.forall_mem_cons, and_assoc]

variable [OrderBot α]

/-- States merged one after another come to the same in any order, however often each is merged. -/
theorem foldl_sup_eq_of_mem_iff {states others : List α}
    (h : ∀ state, state ∈ states ↔ state ∈ others) :
    states.foldl (· ⊔ ·) ⊥ = others.foldl (· ⊔ ·) ⊥ := by
  refine eq_of_forall_ge_iff fun bound ↦ ?_
  rw [foldl_sup_le_iff, foldl_sup_le_iff]
  simp only [h]

section

variable (hinflate : ∀ state op, state ≤ effect state op) {events : List (ReplicaEvent ι ω)}
include hinflate

/-- Assumes: updates that lose nothing. A replica's state is the least that holds what its updates
made. -/
theorem isLUB_state (hrun : run (step effect) (initial ⊥) events = some net) (i : ι) :
    IsLUB ((fun update : ω × α ↦ effect update.2 update.1) '' (net.replicas i).updates)
      (net.replicas i).state := by
  refine (replica_invariant (P := fun replica ↦
    IsLUB ((fun update : ω × α ↦ effect update.2 update.1) '' replica.updates) replica.state)
    ?_ ?_ ?_ hrun).1 i
  · rw [Set.image_empty]
    exact isLUB_empty
  · intro replica op hlub
    change IsLUB (_ '' insert (op, replica.state) replica.updates) (effect replica.state op)
    have hins := hlub.insert (effect replica.state op)
    rw [sup_eq_left.mpr (hinflate replica.state op)] at hins
    rwa [Set.image_insert_eq]
  · intro replica message hlub hmsg
    change IsLUB (_ '' (replica.updates ∪ message.updates)) (replica.state ⊔ message.state)
    rw [Set.image_union]
    exact hlub.union hmsg

/-- Assumes: updates that lose nothing. Replicas that have received the same updates are equal. -/
theorem replicas_converge (hrun : run (step effect) (initial ⊥) events = some net)
    {i j : ι} (hupdates : (net.replicas i).updates = (net.replicas j).updates) :
    (net.replicas i).state = (net.replicas j).state := by
  have hi := isLUB_state hinflate hrun i
  rw [hupdates] at hi
  exact hi.unique (isLUB_state hinflate hrun j)

/-- Assumes: updates that lose nothing. -/
theorem converges : Converges ι effect ⊥ where
  replicas _ _ hrun _ _ := replicas_converge hinflate hrun
  merges _ _ := foldl_sup_eq_of_mem_iff

end

end Convergence

end ReplicaNet

end HydraCache.Lib
