import HydraCache.Lib.OrderedMap
import Mathlib.Data.List.Induction
import Mathlib.Data.List.Perm.Basic

/-!
# Grouped lists and majorities

A list is split into groups by a label on its members (`groupBy`). The groups together hold the
list's members, each as often as the list does (`members_groupBy_perm`).

A predicate has a majority of a list when more than half of the members satisfy it. A majority of
each of several parts is a majority of the whole (`majority_of_parts`). Two predicates that are
satisfied more often than the list has members, taken together, are satisfied by one member both
(`exists_mem_of_length_lt`), so two majorities meet.
-/

set_option autoImplicit false

namespace HydraCache.Lib

open List

variable {α K : Type*}

/-! ### Groups -/

section Groups

variable [LinearOrder K]

/-- One more member in the group of its label. -/
def pushMember (groups : OrderedMap K (List α)) (label : K) (member : α) : OrderedMap K (List α) :=
  groups.insert label ((groups.get label).getD [] ++ [member])

/-- The groups of a list, each in the order of the list. -/
def groupBy (label : α → K) (members : List α) : OrderedMap K (List α) :=
  members.foldl (fun groups member ↦ pushMember groups (label member) member) ∅

/-- The members of all groups. -/
def groupMembers (groups : OrderedMap K (List α)) : List α := groups.rows.flatMap Prod.snd

theorem groupMembers_pushMember (groups : OrderedMap K (List α)) (label : K) (member : α) :
    (groupMembers (pushMember groups label member)).Perm (groupMembers groups ++ [member]) := by
  have hins := (groups.rows_insert_perm label
    ((groups.get label).getD [] ++ [member])).flatMap_right Prod.snd
  refine hins.trans ?_
  rw [flatMap_cons]
  cases hget : groups.get label with
  | none =>
    rw [OrderedMap.remove_of_get_eq_none groups hget]
    exact perm_append_comm
  | some group =>
    have hrows := (OrderedMap.rows_perm_of_get groups hget).flatMap_right Prod.snd
    rw [flatMap_cons] at hrows
    refine List.Perm.trans ?_ (hrows.symm.append_right [member])
    rw [Option.getD_some, append_assoc, append_assoc]
    exact List.Perm.append_left group perm_append_comm

theorem members_groupBy_perm (label : α → K) (members : List α) :
    (groupMembers (groupBy label members)).Perm members := by
  induction members using List.reverseRecOn with
  | nil => exact List.Perm.refl []
  | append_singleton members member ih =>
    rw [groupBy, foldl_concat, ← groupBy]
    exact (groupMembers_pushMember _ _ member).trans (ih.append_right [member])

/-- Only the empty list has no groups. -/
theorem groupBy_rows_ne_nil {label : α → K} {members : List α} (h : members ≠ []) :
    (groupBy label members).rows ≠ [] := by
  intro hrows
  have hperm := members_groupBy_perm label members
  rw [groupMembers, hrows] at hperm
  exact h hperm.nil_eq.symm

end Groups

/-! ### Majorities -/

section Majorities

variable {p q : α → Bool} {members : List α}

/-- More than half of the members satisfy `p`. -/
def Majority (p : α → Bool) (members : List α) : Prop := members.length < 2 * members.countP p

/-- Assumes: two predicates satisfied more often than there are members. One member satisfies
both. -/
theorem exists_mem_of_length_lt (h : members.length < members.countP p + members.countP q) :
    ∃ member ∈ members, p member ∧ q member := by
  by_contra hnone
  have hle : members.countP p ≤ members.countP fun member ↦ decide ¬q member := by
    refine countP_mono_left fun member hmem hp ↦ ?_
    exact decide_eq_true fun hq ↦ hnone ⟨member, hmem, hp, hq⟩
  have hsplit := length_eq_countP_add_countP q (l := members)
  omega

/-- Two majorities meet. -/
theorem Majority.exists_mem (hp : Majority p members) (hq : Majority q members) :
    ∃ member ∈ members, p member ∧ q member := by
  unfold Majority at hp hq
  exact exists_mem_of_length_lt (by omega)

theorem Majority.perm {other : List α} (hperm : members.Perm other) (h : Majority p members) :
    Majority p other := by
  unfold Majority at h ⊢
  rwa [← hperm.length_eq, ← hperm.countP_eq]

/-- Assumes: at least one part, and a majority in each. It is a majority of all the parts
together. -/
theorem majority_of_parts {parts : List (K × List α)} (hne : parts ≠ [])
    (h : ∀ part ∈ parts, Majority p part.2) : Majority p (parts.flatMap Prod.snd) := by
  induction parts with
  | nil => exact absurd rfl hne
  | cons part parts ih =>
    have hpart : Majority p part.2 := h part mem_cons_self
    rw [flatMap_cons]
    unfold Majority at hpart ⊢
    rw [length_append, countP_append]
    cases parts with
    | nil =>
      rw [flatMap_nil, length_nil, countP_nil]
      omega
    | cons next parts =>
      have hrest := ih (cons_ne_nil next parts) fun other hother ↦
        h other (mem_cons_of_mem _ hother)
      unfold Majority at hrest
      omega

end Majorities

end HydraCache.Lib
