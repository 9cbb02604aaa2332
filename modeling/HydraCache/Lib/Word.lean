import Mathlib.Algebra.Order.Ring.Nat

/-!
# Unsigned 64-bit arithmetic on natural numbers

Counters of the source are 64-bit and differ in what they do at the top: generations wrap
(`wrappingSucc`), versions and fences saturate (`saturatingSucc`, `saturatingAdd`), and sequence
numbers and deadlines refuse (`checkedAdd`). A counter is a natural number here, and each operation
says what the top does to it.
-/

set_option autoImplicit false

namespace HydraCache.Lib

/-- The number of 64-bit words. -/
def wordSize : ℕ := 2 ^ 64

/-- The largest 64-bit word, `u64::MAX`. -/
def maxWord : ℕ := 2 ^ 64 - 1

/-- The largest 32-bit word, `u32::MAX`. -/
def maxHalfWord : ℕ := 2 ^ 32 - 1

/-- `wrapping_add(1)`. -/
def wrappingSucc (n : ℕ) : ℕ := (n + 1) % wordSize

/-- `saturating_add`. -/
def saturatingAdd (n m : ℕ) : ℕ := min (n + m) maxWord

/-- `saturating_add(1)`. -/
def saturatingSucc (n : ℕ) : ℕ := saturatingAdd n 1

/-- `checked_add` below a given top. -/
def checkedAdd (top n m : ℕ) : Option ℕ := if n + m ≤ top then some (n + m) else none

variable {n : ℕ}

theorem wrappingSucc_of_le (h : n ≤ wordSize - 2) : wrappingSucc n = n + 1 := by
  refine Nat.mod_eq_of_lt ?_
  simp only [wordSize] at h ⊢
  omega

theorem saturatingAdd_of_le {n m : ℕ} (h : n + m ≤ maxWord) : saturatingAdd n m = n + m :=
  Nat.min_eq_left h

theorem saturatingSucc_of_lt (h : n < maxWord) : saturatingSucc n = n + 1 := by
  exact Nat.min_eq_left h

theorem saturatingSucc_le (n : ℕ) : saturatingSucc n ≤ n + 1 := Nat.min_le_left _ _

theorem saturatingSucc_pos (n : ℕ) : 0 < saturatingSucc n := Nat.lt_min.mpr ⟨n.succ_pos, by decide⟩

theorem lt_saturatingSucc (h : n < maxWord) : n < saturatingSucc n := by
  rw [saturatingSucc_of_lt h]
  exact Nat.lt_succ_self n

theorem le_saturatingSucc (h : n ≤ maxWord) : n ≤ saturatingSucc n := by
  exact Nat.le_min.mpr ⟨Nat.le_succ n, h⟩

/-- Checked additions one after another, from a number that fits. -/
theorem foldlM_checkedAdd {top start : ℕ} {numbers : List ℕ} (hstart : start ≤ top) :
    numbers.foldlM (checkedAdd top) start =
      if start + numbers.sum ≤ top then some (start + numbers.sum) else none := by
  induction numbers generalizing start with
  | nil =>
    rw [List.sum_nil, Nat.add_zero, if_pos hstart]
    rfl
  | cons number numbers ih =>
    rw [List.foldlM_cons, List.sum_cons, checkedAdd]
    split_ifs with hfirst hall hall
    · refine (ih hfirst).trans ?_
      rw [if_pos (by omega), Nat.add_assoc]
    · refine (ih hfirst).trans ?_
      rw [if_neg (by omega)]
    · omega
    · rfl

end HydraCache.Lib
