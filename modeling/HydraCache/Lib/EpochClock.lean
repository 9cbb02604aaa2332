import Mathlib.Data.Prod.Lex

/-!
# Epoch clocks

A resource counter per resource, and one epoch that counts how often all of them were forgotten at
once. Bumping a resource adds one to its counter; rotating adds one to the epoch and resets every
counter to zero. Counters alone would come back to old values after a rotation, so clocks are
ordered lexicographically, by epoch and then pointwise (`EpochClock.le_iff`); both operations go up
in that order.

A reader remembers a clock and later asks whether the current one still agrees with it on the
resources the reader depends on (`AgreeOn`). `not_agreeOn_of_bump` and `not_agreeOn_of_rotate` are
the fencing rules: a bump of one of those resources, or a rotation, anywhere between the two clocks
makes them disagree, whatever else happened in between. `AgreeOn.of_le_of_le` says that agreement
at the end is agreement all along, so a lost agreement never comes back.
-/

set_option autoImplicit false

namespace HydraCache.Lib

/-- One counter per resource, and the epoch in which they count. -/
structure EpochClock (R : Type*) where
  epoch : ℕ
  count : R → ℕ

namespace EpochClock

variable {R : Type*}

/-- Clocks are ordered by epoch, and within one epoch by all counters at once. -/
instance : Preorder (EpochClock R) :=
  Preorder.lift fun clock ↦ toLex (clock.epoch, clock.count)

variable {c d : EpochClock R} {middle : EpochClock R} {S : Set R}

theorem le_iff : c ≤ d ↔ c.epoch < d.epoch ∨ c.epoch = d.epoch ∧ c.count ≤ d.count :=
  Prod.Lex.toLex_le_toLex

/-- The two clocks are in one epoch and count the same for every resource of `S`. -/
def AgreeOn (c d : EpochClock R) (S : Set R) : Prop :=
  c.epoch = d.epoch ∧ ∀ r ∈ S, c.count r = d.count r

/-- The epoch and every counter are at most `n`. -/
def BoundedBy (c : EpochClock R) (n : ℕ) : Prop :=
  c.epoch ≤ n ∧ ∀ r, c.count r ≤ n

/-- Forget all counters and open a new epoch. -/
def rotate (c : EpochClock R) : EpochClock R :=
  ⟨c.epoch + 1, fun _ ↦ 0⟩

/-- Add one to the counter of `r`. -/
def bump [DecidableEq R] (c : EpochClock R) (r : R) : EpochClock R :=
  ⟨c.epoch, Function.update c.count r (c.count r + 1)⟩

theorem BoundedBy.mono {n m : ℕ} (h : c.BoundedBy n) (hnm : n ≤ m) : c.BoundedBy m :=
  ⟨h.1.trans hnm, fun r ↦ (h.2 r).trans hnm⟩

theorem BoundedBy.rotate {n : ℕ} (h : c.BoundedBy n) : c.rotate.BoundedBy (n + 1) :=
  ⟨Nat.succ_le_succ h.1, fun _ ↦ Nat.zero_le _⟩

theorem le_rotate (c : EpochClock R) : c ≤ c.rotate :=
  le_iff.mpr (Or.inl (Nat.lt_succ_self c.epoch))

/-- Assumes: two clocks that agree on `S`, and a third one between them. It agrees too. -/
theorem AgreeOn.of_le_of_le (h : c.AgreeOn d S)
    (hcm : c ≤ middle) (hmd : middle ≤ d) : c.AgreeOn middle S := by
  have hepoch : c.epoch = d.epoch := h.1
  rcases le_iff.mp hcm with hlt | ⟨heq, hle⟩
  · rcases le_iff.mp hmd with hlt' | ⟨heq', _⟩ <;> omega
  · rcases le_iff.mp hmd with hlt' | ⟨_, hle'⟩
    · omega
    · refine ⟨heq, fun r hr ↦ le_antisymm (hle r) ?_⟩
      rw [h.2 r hr]
      exact hle' r

/-- Assumes: a rotation between the two clocks. They disagree. -/
theorem not_agreeOn_of_rotate (S : Set R) (hcm : c ≤ middle)
    (hmd : middle.rotate ≤ d) : ¬ c.AgreeOn d S := by
  intro h
  have hpre : c.epoch = middle.epoch :=
    (h.of_le_of_le hcm ((le_rotate middle).trans hmd)).1
  have hafter : c.epoch = middle.epoch + 1 :=
    (h.of_le_of_le (hcm.trans (le_rotate middle)) hmd).1
  omega

section Bump

variable [DecidableEq R]

theorem le_bump (c : EpochClock R) (r : R) : c ≤ c.bump r := by
  refine le_iff.mpr (Or.inr ⟨rfl, fun other ↦ ?_⟩)
  by_cases h : other = r
  · subst h
    simp [bump]
  · simp [bump, h]

theorem boundedBy_bump {c : EpochClock R} {n : ℕ} (hepoch : c.epoch ≤ n + 1)
    (hcount : ∀ r, c.count r ≤ n) (r : R) : (c.bump r).BoundedBy (n + 1) := by
  refine ⟨hepoch, fun other ↦ ?_⟩
  by_cases hr : other = r
  · subst hr
    simpa [bump] using hcount other
  · simpa [bump, hr] using Nat.le_succ_of_le (hcount other)

/-- Assumes: a bump, between the two clocks, of a resource of `S`. They disagree on `S`. -/
theorem not_agreeOn_of_bump {c middle d : EpochClock R} {r : R} (hr : r ∈ S)
    (hcm : c ≤ middle) (hmd : middle.bump r ≤ d) : ¬ c.AgreeOn d S := by
  intro h
  have hpre : c.count r = middle.count r :=
    (h.of_le_of_le hcm ((le_bump middle r).trans hmd)).2 r hr
  have hafter : c.count r = (middle.bump r).count r :=
    (h.of_le_of_le (hcm.trans (le_bump middle r)) hmd).2 r hr
  simp only [bump, Function.update_self] at hafter
  omega

end Bump

end EpochClock

end HydraCache.Lib
