import Mathlib.Algebra.Order.Ring.Nat
import Mathlib.Data.List.Basic

/-!
# Lists at consecutive positions

`ConsecutiveFrom position start l` says that the elements of `l` stand at the positions `start`,
`start + 1` and so on. Cutting such a list at a position is taking or dropping a number of elements
(`filter_lt`, `filter_ge`), so what is left is consecutive again, and the elements between two
positions are a slice of the list (`drop_take_eq_filter`). Of a list whose positions only ascend,
what stands up to a position can be cut at an earlier one (`filter_le_eq_append`).
-/

set_option autoImplicit false

namespace HydraCache.Lib

open List

variable {α : Type*} {position : α → ℕ} {start : ℕ} {l : List α}

/-- The elements stand at the positions from `start` on, one after another. -/
def ConsecutiveFrom (position : α → ℕ) : ℕ → List α → Prop
  | _, [] => True
  | start, a :: as => position a = start ∧ ConsecutiveFrom position (start + 1) as

namespace ConsecutiveFrom

section

variable (h : ConsecutiveFrom position start l)
include h

theorem le_of_mem {a : α} (ha : a ∈ l) : start ≤ position a := by
  induction l generalizing start with
  | nil => exact absurd ha not_mem_nil
  | cons _ _ ih =>
    rcases mem_cons.mp ha with rfl | ha
    · exact h.1.ge
    · exact (Nat.le_succ start).trans (ih h.2 ha)

/-- What stands before a position is the front of the list. -/
theorem filter_lt (cut : ℕ) : l.filter (fun a ↦ position a < cut) = l.take (cut - start) := by
  induction l generalizing start with
  | nil => simp
  | cons first _ ih =>
    by_cases hcut : start < cut
    · have htake : cut - start = (cut - (start + 1)) + 1 := by omega
      have hfirst : position first < cut := h.1 ▸ hcut
      rw [filter_cons, if_pos (decide_eq_true hfirst), ih h.2, htake, take_succ_cons]
    · rw [Nat.sub_eq_zero_of_le (Nat.le_of_not_lt hcut), take_zero, filter_eq_nil_iff]
      intro a ha hlt
      exact hcut ((h.le_of_mem ha).trans_lt (of_decide_eq_true hlt))

/-- What stands from a position on is the rest of the list. -/
theorem filter_ge (cut : ℕ) : l.filter (fun a ↦ cut ≤ position a) = l.drop (cut - start) := by
  induction l generalizing start with
  | nil => simp
  | cons first _ ih =>
    by_cases hcut : start < cut
    · have hdrop : cut - start = (cut - (start + 1)) + 1 := by omega
      have hfirst : ¬ cut ≤ position first := h.1 ▸ hcut.not_ge
      rw [filter_cons, if_neg (by rwa [decide_eq_true_iff]), ih h.2, hdrop, drop_succ_cons]
    · have hle : cut ≤ start := Nat.le_of_not_lt hcut
      rw [Nat.sub_eq_zero_of_le hle, drop_zero, filter_eq_self]
      exact fun a ha ↦ decide_eq_true (hle.trans (h.le_of_mem ha))

theorem drop (n : ℕ) : ConsecutiveFrom position (start + n) (l.drop n) := by
  induction n generalizing start l with
  | zero => exact h
  | succ n ih =>
    cases l with
    | nil => trivial
    | cons =>
      have hstart : start + (n + 1) = start + 1 + n := by omega
      rw [drop_succ_cons, hstart]
      exact ih h.2

theorem take (n : ℕ) : ConsecutiveFrom position start (l.take n) := by
  induction n generalizing start l with
  | zero => trivial
  | succ n ih =>
    cases l with
    | nil => trivial
    | cons => exact ⟨h.1, ih h.2⟩

theorem append {m : List α} (hm : ConsecutiveFrom position (start + l.length) m) :
    ConsecutiveFrom position start (l ++ m) := by
  induction l generalizing start with
  | nil => exact hm
  | cons _ rest ih =>
    refine ⟨h.1, ih h.2 ?_⟩
    rwa [length_cons, Nat.add_comm rest.length, ← Nat.add_assoc] at hm

theorem position_getLast? {a : α} (ha : l.getLast? = some a) :
    position a + 1 = start + l.length := by
  induction l generalizing start with
  | nil => cases ha
  | cons _ rest ih =>
    cases rest with
    | nil =>
      rw [List.getLast?_singleton, Option.some.injEq] at ha
      rw [← ha, h.1]
      rfl
    | cons =>
      rw [List.getLast?_cons_cons] at ha
      rw [ih h.2 ha]
      simp only [length_cons]
      omega

theorem exists_mem {i : ℕ} (hstart : start ≤ i)
    (hi : i < start + l.length) : ∃ a ∈ l, position a = i := by
  induction l generalizing start with
  | nil =>
    rw [length_nil] at hi
    omega
  | cons first _ ih =>
    rcases hstart.eq_or_lt with rfl | hlt
    · exact ⟨first, mem_cons_self, h.1⟩
    · rw [length_cons] at hi
      obtain ⟨a, ha, hpos⟩ := ih h.2 hlt (by omega)
      exact ⟨a, mem_cons_of_mem _ ha, hpos⟩

/-- A slice of the list is what stands between two positions. -/
theorem drop_take_eq_filter (low high : ℕ) : (l.take (high - start)).drop (low - start) =
      l.filter fun a ↦ low ≤ position a ∧ position a < high := by
  rw [← (h.take (high - start)).filter_ge, ← h.filter_lt, filter_filter]
  exact filter_congr fun a _ ↦ (Bool.decide_and _ _).symm

end

end ConsecutiveFrom

/-- Assumes: ascending positions. What stands up to a position is what stands up to an earlier one
and then what stands between the two. -/
theorem filter_le_eq_append (h : l.Pairwise fun a b ↦ position a < position b) {low high : ℕ}
    (hle : low ≤ high) :
    l.filter (fun a ↦ position a ≤ high) =
      l.filter (fun a ↦ position a ≤ low) ++ l.filter fun a ↦ low < position a ∧
        position a ≤ high := by
  induction l with
  | nil => rfl
  | cons first rest ih =>
    have hrest := ih h.of_cons
    by_cases hfirst : position first ≤ low
    · simp [hfirst, hfirst.trans hle, hrest]
    · -- all that follows stands above the earlier position as well
      have hnil : rest.filter (fun a ↦ position a ≤ low) = [] := by
        rw [filter_eq_nil_iff]
        intro a ha
        have hlt := rel_of_pairwise_cons h ha
        rw [decide_eq_true_iff]
        omega
      rw [hnil, nil_append] at hrest
      have hlow : low < position first := Nat.lt_of_not_le hfirst
      by_cases hhigh : position first ≤ high <;>
        simp [hfirst, hlow, hhigh, hnil, hrest]

end HydraCache.Lib
