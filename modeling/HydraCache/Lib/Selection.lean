import Mathlib.Data.Set.Lattice

/-!
# Merges that select by rank

A merge of two values that keeps the one of higher rank, and one of the two on a tie, keeps a value
of highest rank however the values arrive (`Selects.tops_insert`, `Selects.tops_foldl`). If it also
decides ties by the rank, for the first value or for the second (`SelectsBy`), it is associative,
and what it keeps of a list of values is a function of the set of values exactly when those of the
highest rank agree (`SelectsBy.accumulate_congr_iff`).
-/

set_option autoImplicit false

namespace HydraCache.Lib

open List

variable {α ρ : Type*} [LinearOrder ρ] {rank : α → ρ} {merge : α → α → α} {s : Set α} {a b : α}

/-- The value is one of `s`, and none in `s` ranks above it. -/
def Tops (rank : α → ρ) (s : Set α) (a : α) : Prop := a ∈ s ∧ ∀ b ∈ s, rank b ≤ rank a

/-- The merge keeps the value of higher rank, and one of the two values in any case. -/
structure Selects (rank : α → ρ) (merge : α → α → α) : Prop where
  left {a b : α} : rank b < rank a → merge a b = a
  right {a b : α} : rank a < rank b → merge a b = b
  either (a b : α) : merge a b = a ∨ merge a b = b

theorem tops_singleton (rank : α → ρ) (a : α) : Tops rank {a} a := ⟨rfl, fun _ hb ↦ hb ▸ le_rfl⟩

theorem Tops.rank_eq (ha : Tops rank s a) (hb : Tops rank s b) : rank a = rank b :=
  le_antisymm (hb.2 a ha.1) (ha.2 b hb.1)

/-- Assumes: values of `s` of the same rank are equal. -/
theorem Tops.eq_of_agree (hagree : ∀ a ∈ s, ∀ b ∈ s, rank a = rank b → a = b)
    (ha : Tops rank s a) (hb : Tops rank s b) : a = b :=
  hagree a ha.1 b hb.1 (ha.rank_eq hb)

namespace Selects

theorem le_rank (h : Selects rank merge) (a b : α) :
    rank a ≤ rank (merge a b) ∧ rank b ≤ rank (merge a b) := by
  rcases lt_trichotomy (rank a) (rank b) with hlt | heq | hlt
  · rw [h.right hlt]
    exact ⟨hlt.le, le_rfl⟩
  · rcases h.either a b with hm | hm <;> rw [hm]
    · exact ⟨le_rfl, heq.ge⟩
    · exact ⟨heq.le, le_rfl⟩
  · rw [h.left hlt]
    exact ⟨le_rfl, hlt.le⟩

/-- One more value. -/
theorem tops_insert (h : Selects rank merge) (ha : Tops rank s a) (b : α) :
    Tops rank (insert b s) (merge a b) := by
  refine ⟨?_, fun c hc ↦ ?_⟩
  · rcases h.either a b with hm | hm <;> rw [hm]
    · exact Set.mem_insert_of_mem b ha.1
    · exact Set.mem_insert b s
  · rcases Set.mem_insert_iff.mp hc with rfl | hmem
    · exact (h.le_rank a c).2
    · exact (ha.2 c hmem).trans (h.le_rank a b).1

/-- A list of values, in its order. -/
theorem tops_foldl (h : Selects rank merge) (ha : Tops rank s a) (values : List α) :
    Tops rank (s ∪ {b | b ∈ values}) (values.foldl merge a) := by
  induction values generalizing s a with
  | nil => simpa using ha
  | cons b values ih =>
    have hset : s ∪ {c | c ∈ b :: values} = insert b s ∪ {c | c ∈ values} := by
      ext c
      simp only [Set.mem_union, Set.mem_ofPred_eq, mem_cons, Set.mem_insert_iff]
      tauto
    rw [hset]
    exact ih (h.tops_insert ha b)

end Selects

/-! ### Ties decided by the rank -/

/-- On a tie the merge keeps the first value at the ranks where `first` holds, and the second at the
others. -/
structure SelectsBy (rank : α → ρ) (first : ρ → Bool) (merge : α → α → α) : Prop
    extends Selects rank merge where
  tie {a b : α} : rank a = rank b → merge a b = if first (rank a) then a else b

/-- What is kept of a list of values that arrive in its order. -/
def accumulate (merge : α → α → α) (values : List α) : Option α :=
  values.foldl (fun kept value ↦ some (kept.elim value (merge · value))) none

theorem accumulate_cons (merge : α → α → α) (a : α) (values : List α) :
    accumulate merge (a :: values) = some (values.foldl merge a) := by
  induction values generalizing a with
  | nil => rfl
  | cons b _ ih => exact ih (merge a b)

theorem accumulate_eq_none {values : List α} : accumulate merge values = none ↔ values = [] := by
  cases values with
  | nil => simp [accumulate]
  | cons => simp [accumulate_cons]

namespace SelectsBy

variable {first : ρ → Bool} {values : List α}

section

variable (h : SelectsBy rank first merge)
include h

/-- The merge is a choice by the two ranks. -/
theorem merge_eq (a b : α) : merge a b =
    if rank b < rank a ∨ rank a = rank b ∧ first (rank a) = true then a else b := by
  rcases lt_trichotomy (rank a) (rank b) with hlt | heq | hlt
  · simp [h.right hlt, hlt.not_gt, hlt.ne]
  · simp [h.tie heq, heq]
  · simp [h.left hlt, hlt]

theorem assoc (a b c : α) : merge (merge a b) c = merge a (merge b c) := by
  have hmerge := h.merge_eq
  -- the cases are the orders in which the three ranks can stand
  grind

/-- At a rank whose ties go to the first value, a value of highest rank that arrives first stays. -/
theorem foldl_eq_of_first (hfirst : first (rank a) = true)
    (ha : ∀ b ∈ values, rank b ≤ rank a) : values.foldl merge a = a := by
  induction values with
  | nil => rfl
  | cons b _ ih =>
    have hkeep : merge a b = a := by
      rcases (ha b mem_cons_self).lt_or_eq with hlt | heq
      · exact h.left hlt
      · rw [h.tie heq.symm, if_pos hfirst]
    rw [foldl_cons, hkeep]
    exact ih fun c hc ↦ ha c (mem_cons_of_mem b hc)

/-- At a rank whose ties go to the second value, a value of highest rank takes over. -/
theorem merge_eq_right (hfirst : first (rank b) = false) (hle : rank a ≤ rank b) :
    merge a b = b := by
  rcases hle.lt_or_eq with hlt | heq
  · exact h.right hlt
  · rw [h.tie heq, heq, if_neg (by simp [hfirst])]

theorem tops_of_accumulate (ha : accumulate merge values = some a) :
    Tops rank {b | b ∈ values} a := by
  cases values with
  | nil => cases ha
  | cons b values =>
    rw [accumulate_cons] at ha
    cases ha
    have hset : {c | c ∈ b :: values} = {b} ∪ {c | c ∈ values} := by
      ext c
      simp
    rw [hset]
    exact h.tops_foldl (tops_singleton rank b) values

/-- A value of highest rank is what is kept, if it arrives at the right end. -/
theorem accumulate_eq_of_tops (ha : Tops rank {b | b ∈ values} a) :
    accumulate merge (if first (rank a) then a :: values else values ++ [a]) = some a := by
  split_ifs with hfirst
  · rw [accumulate_cons, h.foldl_eq_of_first hfirst ha.2]
  · cases values with
    | nil => cases ha.1
    | cons b values =>
      have hkept := h.tops_of_accumulate (accumulate_cons merge b values)
      rw [cons_append, accumulate_cons, foldl_append]
      exact congrArg some (h.merge_eq_right (Bool.eq_false_iff.mpr hfirst) (ha.2 _ hkept.1))

/-- What is kept depends on the set of values alone exactly when those of the highest rank agree. -/
theorem accumulate_congr_iff (values : List α) :
    (∀ arrivals others : List α, (∀ a, a ∈ arrivals ↔ a ∈ values) → (∀ a, a ∈ others ↔ a ∈ values) →
        accumulate merge arrivals = accumulate merge others) ↔
      ∀ a b, Tops rank {c | c ∈ values} a → Tops rank {c | c ∈ values} b → a = b := by
  constructor
  · intro hsame a b ha hb
    have hmem {c : α} (hc : Tops rank {c | c ∈ values} c) (d : α) :
        d ∈ (if first (rank c) then c :: values else values ++ [c]) ↔ d ∈ values := by
      have hin : c ∈ values := hc.1
      split_ifs
      · simp only [mem_cons, or_iff_right_iff_imp]
        exact fun hd ↦ hd ▸ hin
      · simp only [mem_append, mem_singleton, or_iff_left_iff_imp]
        exact fun hd ↦ hd ▸ hin
    have hkept := hsame _ _ (hmem ha) (hmem hb)
    rw [h.accumulate_eq_of_tops ha, h.accumulate_eq_of_tops hb] at hkept
    exact Option.some_injective _ hkept
  · intro hagree arrivals others harr hothers
    have hset {l : List α} (hl : ∀ a, a ∈ l ↔ a ∈ values) : {c | c ∈ l} = {c | c ∈ values} :=
      Set.ext hl
    cases hkept : accumulate merge arrivals with
    | none =>
      rw [accumulate_eq_none] at hkept
      have hnone : others = [] :=
        eq_nil_iff_forall_not_mem.mpr fun a ha ↦ by
          simpa [hkept] using (harr a).mpr ((hothers a).mp ha)
      rw [hnone]
      rfl
    | some a =>
      have ha := h.tops_of_accumulate hkept
      cases hother : accumulate merge others with
      | none =>
        rw [accumulate_eq_none] at hother
        simpa [hother] using (hothers a).mpr ((harr a).mp ha.1)
      | some b =>
        have hb := h.tops_of_accumulate hother
        rw [hset harr] at ha
        rw [hset hothers] at hb
        rw [hagree a b ha hb]

end

end SelectsBy

end HydraCache.Lib
