import HydraCache.Grid.ActiveActive
import HydraCache.Lib.JoinMap
import HydraCache.Lib.Replication
import Mathlib.Data.Finset.Lattice.Lemmas
import Mathlib.Data.Nat.Order.Lemmas
import Mathlib.Order.LatticeIntervals

/-!
# Conflict-free values

Three values can be changed on any replica and merged in any order: a counter that only grows
(`GCounter`, one component for each node), a counter that also shrinks (`PnCounter`, two of the
former), and a set with removal (`OrSet`, where each addition carries a tag and a removal records
the tags it has seen). Each is a join semilattice whose join is its `merge`, and no local operation
loses anything (`GCounter.le_apply`, `PnCounter.le_apply`, `OrSet.le_apply`), so the replicas of the
library converge.

What a replica of an `OrSet` holds is what its updates say (`OrSet.Explained`). With a tag of its
own for each addition, a value is visible exactly when some addition of it has reached the replica
whose tag no removal of the value that has reached the replica had seen (`OrSet.contains_iff`).

The components of a `GCounter` stop at the largest word, and their sum does not. The value of a
counter is there, and not below the value before, as long as the sum of the components fits a word,
and no longer (`GCounter.value_le_iff`): one more increment on another node faults, or wraps to a
smaller value (`GCounter.value_overflow`).
-/

set_option autoImplicit false

namespace HydraCache.Grid

open Lib ReplicaNet Finset

/-- A 64-bit component of a counter. -/
abbrev Component : Type := Set.Iic maxWord

namespace Component

def saturatingAdd (component : Component) (amount : ℕ) : Component :=
  ⟨Lib.saturatingAdd component.1 amount, Nat.min_le_right _ _⟩

theorem le_saturatingAdd (component : Component) (amount : ℕ) :
    component ≤ saturatingAdd component amount :=
  Nat.le_min.mpr ⟨Nat.le_add_right _ _, component.2⟩

end Component

/-! ### The counter that only grows -/

structure GCounter where
  perNode : OrderedMap ClusterNodeId Component
deriving DecidableEq

namespace GCounter

def new : GCounter := ⟨∅⟩

section

variable (counter : GCounter)

def increment (node : ClusterNodeId) (amount : ℕ) : GCounter :=
  ⟨counter.perNode.insert node (Component.saturatingAdd (counter.perNode.value node) amount)⟩

/-- The larger component of each node. -/
def merge (other : GCounter) : GCounter := ⟨counter.perNode.join other.perNode⟩

/-- The sum of the components. -/
def total : ℕ := counter.perNode.total Subtype.val

/-- The value with overflow checks, where a sum beyond a word faults. -/
def value : Option ℕ :=
  (counter.perNode.rows.map fun row ↦ row.2.1).foldlM (checkedAdd maxWord) 0

/-- The value without overflow checks, where the sum wraps. -/
def wrappedValue : ℕ :=
  (counter.perNode.rows.map fun row ↦ row.2.1).foldl
    (fun sum component ↦ (sum + component) % wordSize) 0

inductive Op where
  | increment (node : ClusterNodeId) (amount : ℕ)

def apply : Op → GCounter
  | .increment node amount => counter.increment node amount

end

theorem perNode_injective : Function.Injective perNode := by
  rintro ⟨perNode⟩ ⟨other⟩ rfl
  rfl

instance : Max GCounter := ⟨merge⟩

instance : LE GCounter := ⟨fun counter other ↦ counter.perNode ≤ other.perNode⟩

instance : LT GCounter := ⟨fun counter other ↦ counter.perNode < other.perNode⟩

instance semilatticeSup : SemilatticeSup GCounter :=
  perNode_injective.semilatticeSup perNode Iff.rfl Iff.rfl fun _ _ ↦ rfl

instance orderBot : OrderBot GCounter where
  bot := new
  bot_le counter := (bot_le : (⊥ : OrderedMap ClusterNodeId Component) ≤ counter.perNode)

theorem le_increment (counter : GCounter) (node : ClusterNodeId) (amount : ℕ) :
    counter ≤ counter.increment node amount := by
  refine OrderedMap.le_insert ?_
  cases hget : counter.perNode.get node with
  | none =>
    have hbot : counter.perNode.read node = ⊥ := hget
    rw [hbot]
    exact bot_le
  | some component =>
    have hread : counter.perNode.read node = component := hget
    rw [hread, WithBot.coe_le_coe, OrderedMap.value, hget]
    exact Component.le_saturatingAdd component amount

theorem le_apply (counter : GCounter) (op : Op) : counter ≤ counter.apply op := by
  cases op with
  | increment node amount => exact counter.le_increment node amount

/-- What changes a counter. -/
inductive Change where
  | increment (node : ClusterNodeId) (amount : ℕ)
  | merge (other : GCounter)

def change (counter : GCounter) : Change → GCounter
  | .increment node amount => counter.increment node amount
  | .merge other => counter.merge other

section

variable (counter : GCounter) (change : Change)

theorem total_le_change : counter.total ≤ (counter.change change).total := by
  cases change with
  | increment _ amount =>
    refine OrderedMap.total_le_insert _ fun old hold ↦ ?_
    rw [OrderedMap.value, hold]
    exact Component.le_saturatingAdd old amount
  | merge => exact OrderedMap.total_le_join (Subtype.mono_coe _) counter.perNode ..

theorem value_eq :
    counter.value = if counter.total ≤ maxWord then some counter.total else none := by
  refine (foldlM_checkedAdd (Nat.zero_le ..)).trans ?_
  rw [Nat.zero_add]
  rfl

/-- The value is there after a change, and not below the one before, exactly when the sum of the
components fits a word. -/
theorem value_le_iff :
    (∃ before after, counter.value = some before ∧ (counter.change change).value = some after ∧
      before ≤ after) ↔ (counter.change change).total ≤ maxWord := by
  have hle := counter.total_le_change change
  rw [value_eq, value_eq]
  constructor
  · rintro ⟨before, after, -, hafter, -⟩
    by_contra hbig
    simp [if_neg hbig] at hafter
  · intro hfits
    rw [if_pos hfits, if_pos (hle.trans hfits)]
    exact ⟨_, _, rfl, rfl, hle⟩

end

end GCounter

/-! ### The counter that also shrinks -/

structure PnCounter where
  inc : GCounter
  dec : GCounter
deriving DecidableEq

namespace PnCounter

def new : PnCounter := ⟨.new, .new⟩

section

variable (counter : PnCounter)

def increment (node : ClusterNodeId) (amount : ℕ) : PnCounter :=
  { counter with inc := counter.inc.increment node amount }

def decrement (node : ClusterNodeId) (amount : ℕ) : PnCounter :=
  { counter with dec := counter.dec.increment node amount }

def merge (other : PnCounter) : PnCounter :=
  ⟨counter.inc.merge other.inc, counter.dec.merge other.dec⟩

/-- The difference of the two values, where both are there. -/
def value : Option ℤ := do
  let increments ← counter.inc.value
  let decrements ← counter.dec.value
  return (increments : ℤ) - decrements

inductive Op where
  | increment (node : ClusterNodeId) (amount : ℕ)
  | decrement (node : ClusterNodeId) (amount : ℕ)

def apply : Op → PnCounter
  | .increment node amount => counter.increment node amount
  | .decrement node amount => counter.decrement node amount

/-- Both counters. -/
def parts : GCounter × GCounter := (counter.inc, counter.dec)

end

theorem parts_injective : Function.Injective parts := by
  rintro ⟨inc, dec⟩ ⟨inc', dec'⟩ h
  cases h
  rfl

instance : Max PnCounter := ⟨merge⟩

instance : LE PnCounter := ⟨fun counter other ↦ counter.parts ≤ other.parts⟩

instance : LT PnCounter := ⟨fun counter other ↦ counter.parts < other.parts⟩

instance semilatticeSup : SemilatticeSup PnCounter :=
  parts_injective.semilatticeSup parts Iff.rfl Iff.rfl fun _ _ ↦ rfl

instance orderBot : OrderBot PnCounter where
  bot := new
  bot_le counter := (bot_le : (⊥ : GCounter × GCounter) ≤ counter.parts)

theorem le_apply (counter : PnCounter) (op : Op) : counter ≤ counter.apply op := by
  cases op with
  | increment node amount => exact ⟨counter.inc.le_increment node amount, le_rfl⟩
  | decrement node amount => exact ⟨le_rfl, counter.dec.le_increment node amount⟩

end PnCounter

/-! ### The set with removal -/

/-- The tag of one addition. -/
structure OrSetTag where
  node : ClusterNodeId
  counter : ℕ
deriving DecidableEq

structure OrSet (T : Type) [LinearOrder T] where
  adds : OrderedMap T (Finset OrSetTag)
  removes : Finset OrSetTag

namespace OrSet

variable {T : Type} [LinearOrder T]

def new : OrSet T := ⟨∅, ∅⟩

section

variable (set : OrSet T)

/-- Add a value under a tag. -/
def add (value : T) (tag : OrSetTag) : OrSet T :=
  { set with adds := set.adds.joinAt value {tag} }

/-- Remove a value by recording each of its tags. -/
def remove (value : T) : OrSet T :=
  match set.adds.get value with
  | some tags => { set with removes := set.removes ∪ tags }
  | none => set

def contains (value : T) : Bool :=
  (set.adds.get value).any fun tags ↦ ∃ tag ∈ tags, tag ∉ set.removes

/-- The visible values in order. -/
def values : List T := (set.adds.rows.map Prod.fst).filter set.contains

def merge (other : OrSet T) : OrSet T := ⟨set.adds.join other.adds, set.removes ∪ other.removes⟩

inductive Op (T : Type) where
  | add (value : T) (tag : OrSetTag)
  | remove (value : T)

def apply : Op T → OrSet T
  | .add value tag => set.add value tag
  | .remove value => set.remove value

def parts : OrderedMap T (Finset OrSetTag) × Finset OrSetTag := (set.adds, set.removes)

end

theorem parts_injective : Function.Injective (parts (T := T)) := by
  rintro ⟨adds, removes⟩ ⟨adds', removes'⟩ h
  cases h
  rfl

instance : Max (OrSet T) := ⟨merge⟩

instance : LE (OrSet T) := ⟨fun set other ↦ set.parts ≤ other.parts⟩

instance : LT (OrSet T) := ⟨fun set other ↦ set.parts < other.parts⟩

instance semilatticeSup : SemilatticeSup (OrSet T) :=
  parts_injective.semilatticeSup parts Iff.rfl Iff.rfl fun _ _ ↦ rfl

instance orderBot : OrderBot (OrSet T) where
  bot := new
  bot_le set := (bot_le : (⊥ : OrderedMap T (Finset OrSetTag) × Finset OrSetTag) ≤ set.parts)

/-- The tags under which a value was added. -/
def tagsOf (set : OrSet T) (value : T) : Finset OrSetTag := set.adds.value value

section

variable (set : OrSet T) (value : T)

theorem remove_eq : set.remove value = { set with removes := set.removes ∪ set.tagsOf value } := by
  unfold remove tagsOf OrderedMap.value
  cases set.adds.get value with
  | none =>
    change set = { set with removes := set.removes ∪ ∅ }
    rw [union_empty]
  | some => rfl

theorem contains_eq_true_iff {set : OrSet T} {value : T} :
    set.contains value ↔ ∃ tag ∈ set.tagsOf value, tag ∉ set.removes := by
  unfold contains tagsOf OrderedMap.value
  cases set.adds.get value with
  | none => exact iff_of_false Bool.false_ne_true fun ⟨tag, htag, _⟩ ↦ notMem_empty tag htag
  | some => exact decide_eq_true_iff

theorem le_apply (op : Op T) : set ≤ set.apply op := by
  cases op with
  | add value tag => exact ⟨set.adds.le_joinAt value {tag}, le_rfl⟩
  | remove =>
    rw [apply, remove_eq]
    exact ⟨le_rfl, subset_union_left⟩

theorem tagsOf_add (other : T) (tag : OrSetTag) : (set.add value tag).tagsOf other =
      if other = value then set.tagsOf value ∪ {tag} else set.tagsOf other :=
  set.adds.value_joinAt value other {tag}

theorem tagsOf_remove (other : T) : (set.remove value).tagsOf other = set.tagsOf other := by
  rw [remove_eq]
  rfl

theorem tagsOf_merge (other : OrSet T) (value : T) :
    (set ⊔ other).tagsOf value = set.tagsOf value ∪ other.tagsOf value :=
  set.adds.value_join ..

end

/-! ### What a replica of the set holds -/

/-- The tags of a replica are those of its additions, the removed ones those its removals had seen,
and what a removal had seen has reached the replica as well. -/
structure Explained (replica : Replica (OrSet T) (Op T)) : Prop where
  added : ∀ value tag, tag ∈ replica.state.tagsOf value ↔
    ∃ before, (.add value tag, before) ∈ replica.updates
  removed : ∀ tag, tag ∈ replica.state.removes ↔
    ∃ value before, (.remove value, before) ∈ replica.updates ∧ tag ∈ before.tagsOf value
  seen : ∀ op before, (op, before) ∈ replica.updates → ∀ value tag, tag ∈ before.tagsOf value →
    ∃ earlier, (.add value tag, earlier) ∈ replica.updates

theorem explained_new : Explained ⟨(new : OrSet T), ∅⟩ where
  added _ tag := iff_of_false (notMem_empty tag) fun ⟨_, h⟩ ↦ h
  removed tag := iff_of_false (notMem_empty tag) fun ⟨_, _, h, _⟩ ↦ h
  seen _ _ h := absurd h (Set.notMem_empty _)

variable {replica message : Replica (OrSet T) (Op T)}

/-- What an update had seen has reached its replica. -/
theorem Explained.seen_update (h : Explained replica) (op : Op T) {op' : Op T} {before : OrSet T}
    (hupd : (op', before) ∈ (replica.update apply op).updates) {value : T} {tag : OrSetTag}
    (htag : tag ∈ before.tagsOf value) :
    ∃ earlier, (.add value tag, earlier) ∈ (replica.update apply op).updates := by
  rcases Set.mem_insert_iff.mp hupd with hnow | hprev
  · cases hnow
    obtain ⟨earlier, hadd⟩ := (h.added value tag).mp htag
    exact ⟨earlier, Set.mem_insert_of_mem _ hadd⟩
  · obtain ⟨earlier, hadd⟩ := h.seen op' before hprev value tag htag
    exact ⟨earlier, Set.mem_insert_of_mem _ hadd⟩

theorem explained_update (op : Op T) (h : Explained replica) :
    Explained (replica.update apply op) := by
  refine ⟨fun value tag ↦ ?_, fun tag ↦ ?_, fun op' before hupd value tag ↦ h.seen_update op hupd⟩
  · change tag ∈ (replica.state.apply op).tagsOf value ↔ ∃ before, _ ∈ insert _ _
    simp only [Set.mem_insert_iff, Prod.mk.injEq, exists_or]
    rw [← h.added]
    cases op with
    | add =>
      rw [apply, tagsOf_add]
      split_ifs with hvalue
      · subst hvalue
        simp
      · simp [hvalue]
    | remove =>
      rw [apply, tagsOf_remove]
      simp
  · change tag ∈ (replica.state.apply op).removes ↔ ∃ value before, _ ∈ insert _ _ ∧ _
    simp only [Set.mem_insert_iff, Prod.mk.injEq, or_and_right, exists_or]
    rw [← h.removed]
    cases op with
    | add => simp [apply, add]
    | remove =>
      rw [apply, remove_eq, mem_union, or_comm]
      simp

theorem explained_merge (h : Explained replica) (hmsg : Explained message) :
    Explained (replica.merge message) := by
  refine ⟨fun value tag ↦ ?_, fun tag ↦ ?_, fun op before hupd value tag htag ↦ ?_⟩
  · change tag ∈ (replica.state ⊔ message.state).tagsOf value ↔ ∃ before, _ ∈ _ ∪ _
    rw [tagsOf_merge, mem_union, h.added, hmsg.added]
    simp only [Set.mem_union, exists_or]
  · change tag ∈ replica.state.removes ∪ message.state.removes ↔ ∃ value before, _ ∈ _ ∪ _ ∧ _
    rw [mem_union, h.removed, hmsg.removed]
    simp only [Set.mem_union, or_and_right, exists_or]
  · rcases hupd with hupd | hupd
    · obtain ⟨earlier, hadd⟩ := h.seen op before hupd value tag htag
      exact ⟨earlier, .inl hadd⟩
    · obtain ⟨earlier, hadd⟩ := hmsg.seen op before hupd value tag htag
      exact ⟨earlier, .inr hadd⟩

/-- An addition brings a tag that no addition has had. -/
def FreshTags {ι : Type} (net : ReplicaNet ι (OrSet T) (Op T)) (event : ReplicaEvent ι (Op T)) :
    Prop :=
  ∀ i value tag, event = .update i (.add value tag) →
    ∀ other before, (.add other tag, before) ∉ net.log

/-- What has reached a replica was done somewhere, and a tag stands for one value. -/
structure Tagged {ι : Type} (net : ReplicaNet ι (OrSet T) (Op T)) : Prop where
  logged : net.All (·.updates ⊆ net.log)
  distinct : ∀ value other tag before before', (.add value tag, before) ∈ net.log →
    (.add other tag, before') ∈ net.log → value = other

theorem tagged_initial {ι : Type} : Tagged (.initial new : ReplicaNet ι (OrSet T) (Op T)) where
  logged := ⟨fun _ ↦ subset_rfl, fun _ h ↦ absurd h List.not_mem_nil⟩
  distinct _ _ _ _ _ h := absurd h (Set.notMem_empty _)

variable {ι : Type} [DecidableEq ι] {net net' : ReplicaNet ι (OrSet T) (Op T)}

variable {event : ReplicaEvent ι (Op T)}

theorem log_subset_of_step (hstep : step apply net event = some net') : net.log ⊆ net'.log := by
  cases event with
  | update =>
    cases hstep
    exact Set.subset_insert _ _
  | send =>
    cases hstep
    exact subset_rfl
  | receive =>
    obtain ⟨message, -, rfl⟩ := Option.map_eq_some_iff.mp hstep
    exact subset_rfl

theorem logged_step (h : net.All (·.updates ⊆ net.log))
    (hstep : step apply net event = some net') : net'.All (·.updates ⊆ net'.log) := by
  have hlog := log_subset_of_step hstep
  refine all_step ?_ (fun _ _ ↦ Set.union_subset)
    ⟨fun i ↦ (h.1 i).trans hlog, fun message hmsg ↦ (h.2 message hmsg).trans hlog⟩ hstep
  rintro i op rfl hupdates
  cases hstep
  exact Set.insert_subset (Set.mem_insert _ _) hupdates

theorem tagged_step (hfresh : FreshTags net event) (h : Tagged net)
    (hstep : step apply net event = some net') : Tagged net' := by
  refine ⟨logged_step h.logged hstep, ?_⟩
  cases event with
  | update i =>
    cases hstep
    intro value other tag before before' hadd hother
    rcases Set.mem_insert_iff.mp hadd with hnow | hprev <;>
      rcases Set.mem_insert_iff.mp hother with hnow' | hearlier'
    · cases (Prod.mk.inj hnow).1.trans (Prod.mk.inj hnow').1.symm
      rfl
    · cases (Prod.mk.inj hnow).1
      exact absurd hearlier' (hfresh i value tag rfl other before')
    · cases (Prod.mk.inj hnow').1
      exact absurd hprev (hfresh i other tag rfl value before)
    · exact h.distinct value other tag before before' hprev hearlier'
  | send =>
    cases hstep
    exact h.distinct
  | receive =>
    obtain ⟨message, -, rfl⟩ := Option.map_eq_some_iff.mp hstep
    exact h.distinct

/-- Assumes: a run in which each addition has a tag of its own. A value is visible on a replica
exactly when an addition of it has reached the replica whose tag no removal of it that has reached
the replica had seen. -/
theorem contains_iff {events : List (ReplicaEvent ι (Op T))}
    (hfresh : Along (step apply) FreshTags (.initial new) events)
    (hrun : run (step apply) (.initial new) events = some net) (i : ι) (value : T) :
    (net.replicas i).state.contains value ↔
      ∃ tag before, (.add value tag, before) ∈ (net.replicas i).updates ∧
        ∀ earlier, (.remove value, earlier) ∈ (net.replicas i).updates →
          tag ∉ earlier.tagsOf value := by
  have hexpl : Explained (net.replicas i) :=
    (replica_invariant explained_new (fun _ ↦ explained_update)
      (fun _ _ ↦ explained_merge) hrun).1 i
  have htagged : Tagged net := run_invariant (fun _ _ _ ↦ tagged_step) tagged_initial hfresh hrun
  have hlogged := htagged.logged.1 i
  rw [contains_eq_true_iff]
  constructor
  · rintro ⟨tag, htag, hkept⟩
    obtain ⟨before, hadd⟩ := (hexpl.added value tag).mp htag
    refine ⟨tag, before, hadd, fun earlier hrem hseen ↦ hkept ?_⟩
    exact (hexpl.removed tag).mpr ⟨value, earlier, hrem, hseen⟩
  · rintro ⟨tag, before, hadd, hkept⟩
    refine ⟨tag, (hexpl.added ..).mpr ⟨before, hadd⟩, fun hremoved ↦ ?_⟩
    obtain ⟨other, earlier, hrem, hseen⟩ := (hexpl.removed tag).mp hremoved
    -- a removal of another value has seen only that value's tags
    obtain ⟨before', hother⟩ := hexpl.seen _ _ hrem other tag hseen
    obtain rfl := htagged.distinct value other tag before before' (hlogged hadd) (hlogged hother)
    exact hkept earlier hrem hseen

end OrSet

/-! ### The three values together -/

/-- Replicas of the three values converge, a value of a set is visible exactly when some addition of
it that has reached the replica was not removed, and a change leaves the value of a growing counter
there and not smaller exactly when the sum of its components fits a word. -/
theorem conflict_free_values (ι T : Type) [DecidableEq ι] [LinearOrder T] :
    Converges ι GCounter.apply .new ∧ Converges ι PnCounter.apply .new ∧
    Converges ι (OrSet.apply (T := T)) .new ∧
    (∀ events (net : ReplicaNet ι (OrSet T) (OrSet.Op T)),
      Along (step OrSet.apply) OrSet.FreshTags (.initial .new) events →
      run (step OrSet.apply) (.initial .new) events = some net →
      ∀ i value, (net.replicas i).state.contains value ↔
        ∃ tag before, (.add value tag, before) ∈ (net.replicas i).updates ∧
          ∀ earlier, (.remove value, earlier) ∈ (net.replicas i).updates →
            tag ∉ earlier.tagsOf value) ∧
    ∀ (counter : GCounter) (change : GCounter.Change),
      (∃ before after, counter.value = some before ∧ (counter.change change).value = some after ∧
        before ≤ after) ↔ (counter.change change).total ≤ maxWord :=
  ⟨converges GCounter.le_apply, converges PnCounter.le_apply,
    converges OrSet.le_apply, fun _ _ ↦ OrSet.contains_iff, GCounter.value_le_iff⟩

/-- One node at the largest word and one increment on another: the value faults where additions are
checked, and falls to zero where they wrap. -/
theorem GCounter.value_overflow : let full := GCounter.new.increment "a" maxWord
    let more := full.increment "b" 1
    full.value = some maxWord ∧ more.value = none ∧
      full.wrappedValue = maxWord ∧ more.wrappedValue = 0 := by
  decide +kernel

end HydraCache.Grid
