import Mathlib.Data.List.Basic

/-!
# Decoders of beginnings

A decoder looks at the beginning of what it is given. It finds something there and says how long it
is, it finds that more is needed, or that nothing good can come of it. A decoder is incremental
(`Incremental`) if what it finds depends on what it says it has taken and on nothing else, and if it
finds nothing in less than that. The decoders that are put together here from incremental ones are
incremental.
-/

set_option autoImplicit false

namespace HydraCache.Lib

/-- What stands at the beginning, with its length; nothing if more is needed. -/
def Decoder (β ε α : Type*) : Type _ :=
  List β → Except ε (Option (α × ℕ))

variable {β ε α γ : Type*} {decode : Decoder β ε α}

structure Incremental (decode : Decoder β ε α) : Prop where
  bounded : ∀ {bytes a n}, decode bytes = .ok (some (a, n)) → n ≤ bytes.length
  exact : ∀ {bytes a n}, decode bytes = .ok (some (a, n)) →
    decode (bytes.take n) = .ok (some (a, n))
  extend : ∀ {bytes a n}, decode bytes = .ok (some (a, n)) → ∀ more,
    decode (bytes ++ more) = .ok (some (a, n))
  short : ∀ {bytes a n}, decode bytes = .ok (some (a, n)) →
    ∀ m < n, decode (bytes.take m) = .ok none

/-- What is found does not depend on what comes after it. -/
theorem Incremental.decode_take (h : Incremental decode) {bytes : List β} {a : α}
    {n m : ℕ} (hdec : decode bytes = .ok (some (a, n))) (hm : n ≤ m) :
    decode (bytes.take m) = .ok (some (a, n)) := by
  have hsplit : bytes.take n ++ (bytes.take m).drop n = bytes.take m := by
    have happend := List.take_append_drop n (bytes.take m)
    rwa [List.take_take, Nat.min_eq_left hm] at happend
  rw [← hsplit]
  exact h.extend (h.exact hdec) _

namespace Decoder

def pure (a : α) : Decoder β ε α :=
  fun _ ↦ .ok (some (a, 0))

def fail (error : ε) : Decoder β ε α :=
  fun _ ↦ .error error

/-- One decoder and then another, which may depend on what was found. -/
def bind (first : Decoder β ε α) (second : α → Decoder β ε γ) : Decoder β ε γ :=
  fun bytes ↦
    match first bytes with
    | .error error => .error error
    | .ok none => .ok none
    | .ok (some (a, n)) =>
      match second a (bytes.drop n) with
      | .error error => .error error
      | .ok none => .ok none
      | .ok (some (c, m)) => .ok (some (c, n + m))

/-- So many, whatever they are. -/
def take (n : ℕ) : Decoder β ε (List β) :=
  fun bytes ↦ if n ≤ bytes.length then .ok (some (bytes.take n, n)) else .ok none

/-- The same thing so many times. -/
def many (decode : Decoder β ε α) : ℕ → Decoder β ε (List α)
  | 0 => pure []
  | n + 1 => bind decode fun a ↦ bind (many decode n) fun rest ↦ pure (a :: rest)

/-- What stands before the first place where `first` is followed by `second`. -/
def upTo [DecidableEq β] (first second : β) : List β → Option (List β × ℕ)
  | [] => none
  | [_] => none
  | b :: next :: bytes =>
    if b = first ∧ next = second then some ([], 2)
    else (upTo first second (next :: bytes)).map fun found ↦ (b :: found.1, found.2 + 1)

def line [DecidableEq β] (first second : β) : Decoder β ε (List β) :=
  fun bytes ↦ .ok (upTo first second bytes)

end Decoder

open Decoder List

theorem incremental_pure (a : α) : Incremental (Decoder.pure a : Decoder β ε α) where
  bounded h := by
    cases h
    exact Nat.zero_le _
  exact h := by
    cases h
    rfl
  extend h _ := by
    cases h
    rfl
  short h m hm := by
    cases h
    exact absurd hm (Nat.not_lt_zero m)

theorem incremental_fail (error : ε) : Incremental (Decoder.fail error : Decoder β ε α) where
  bounded h := by cases h
  exact h := by cases h
  extend h := by cases h
  short h := by cases h

section

variable {first : Decoder β ε α} {second : α → Decoder β ε γ} {bytes : List β}

theorem bind_eq_ok_some {c : γ} {k : ℕ} : Decoder.bind first second bytes = .ok (some (c, k)) ↔
      ∃ a n m, first bytes = .ok (some (a, n)) ∧ second a (bytes.drop n) = .ok (some (c, m)) ∧
        n + m = k := by
  unfold Decoder.bind
  rcases hfirst : first bytes with error | _ | ⟨a, n⟩
  · simp
  · simp
  · rcases hsnd : second a (bytes.drop n) with error | _ | ⟨found, m⟩ <;> simp [hsnd]

theorem bind_eq_ok_none {a : α} {n : ℕ}
    (hfirst : first bytes = .ok (some (a, n))) (hsnd : second a (bytes.drop n) = .ok none) :
    Decoder.bind first second bytes = .ok none := by
  simp only [Decoder.bind, hfirst, hsnd]

theorem incremental_bind (hfirst : Incremental first)
    (hsnd : ∀ a, Incremental (second a)) : Incremental (Decoder.bind first second) where
  bounded h := by
    obtain ⟨a, n, m, hfound, hrest, rfl⟩ := bind_eq_ok_some.mp h
    have hn := hfirst.bounded hfound
    have hm := (hsnd a).bounded hrest
    rw [length_drop] at hm
    omega
  exact h := by
    obtain ⟨a, n, m, hfound, hrest, rfl⟩ := bind_eq_ok_some.mp h
    refine bind_eq_ok_some.mpr ⟨a, n, m, hfirst.decode_take hfound (Nat.le_add_right n m), ?_, rfl⟩
    rw [drop_take, Nat.add_sub_cancel_left]
    exact (hsnd a).exact hrest
  extend h more := by
    obtain ⟨a, n, m, hfound, hrest, rfl⟩ := bind_eq_ok_some.mp h
    refine bind_eq_ok_some.mpr ⟨a, n, m, hfirst.extend hfound more, ?_, rfl⟩
    rw [drop_append_of_le_length (hfirst.bounded hfound)]
    exact (hsnd a).extend hrest more
  short h k hk := by
    obtain ⟨a, n, m, hfound, hrest, rfl⟩ := bind_eq_ok_some.mp h
    by_cases hlt : k < n
    · simp only [Decoder.bind, hfirst.short hfound k hlt]
    · have hle := Nat.le_of_not_lt hlt
      refine bind_eq_ok_none (hfirst.decode_take hfound hle) ?_
      rw [drop_take]
      exact (hsnd a).short hrest (k - n) (by omega)

end

theorem incremental_take (n : ℕ) : Incremental (Decoder.take n : Decoder β ε (List β)) where
  bounded h := by
    unfold Decoder.take at h
    split_ifs at h with hle
    · cases h
      exact hle
    · cases h
  exact h := by
    unfold Decoder.take at h ⊢
    split_ifs at h with hle
    · cases h
      rw [length_take, if_pos (by omega), List.take_take, Nat.min_self]
    · cases h
  extend h more := by
    unfold Decoder.take at h ⊢
    split_ifs at h with hle
    · cases h
      rw [length_append, if_pos (by omega), take_append_of_le_length hle]
    · cases h
  short h m hm := by
    unfold Decoder.take at h ⊢
    split_ifs at h with hle
    · cases h
      rw [length_take, if_neg (by omega)]
    · cases h

theorem incremental_many (h : Incremental decode) (n : ℕ) :
    Incremental (Decoder.many decode n) := by
  induction n with
  | zero => exact incremental_pure []
  | succ n ih =>
    exact incremental_bind h fun a ↦ incremental_bind ih fun rest ↦ incremental_pure (a :: rest)

section Line

variable [DecidableEq β] {first second : β} {bytes found : List β} {n : ℕ}

/-- A line that is found ends where it says, and nothing was found in less. -/
theorem upTo_spec (h : upTo first second bytes = some (found, n)) :
    n ≤ bytes.length ∧ (∀ more, upTo first second (bytes.take n ++ more) = some (found, n)) ∧
      ∀ m < n, upTo first second (bytes.take m) = none := by
  induction bytes generalizing found n with
  | nil => cases h
  | cons b bytes ih =>
    cases bytes with
    | nil => cases h
    | cons next bytes =>
      rw [upTo] at h
      split_ifs at h with hend
      · cases h
        refine ⟨by simp, fun more ↦ ?_, fun m hm ↦ ?_⟩
        · change upTo first second (b :: next :: ([] ++ more)) = _
          rw [upTo, if_pos hend]
        · have hcases : m = 0 ∨ m = 1 := by omega
          rcases hcases with rfl | rfl <;> rfl
      · obtain ⟨⟨rest, k⟩, hrest, heq⟩ := Option.map_eq_some_iff.mp h
        cases heq
        obtain ⟨hle, hmore, hshort⟩ := ih hrest
        -- the line goes on with at least one more
        have hpos : 0 < k := by
          rcases Nat.eq_zero_or_pos k with rfl | hpos
          · have hnone := hmore []
            cases hnone
          · exact hpos
        obtain ⟨k, rfl⟩ : ∃ j, k = j + 1 := ⟨k - 1, by omega⟩
        refine ⟨Nat.succ_le_succ hle, fun more ↦ ?_, fun m hm ↦ ?_⟩
        · have hfound := hmore more
          rw [take_succ_cons, cons_append] at hfound
          rw [take_succ_cons, take_succ_cons, cons_append, cons_append, upTo, if_neg hend, hfound]
          rfl
        · rcases m with _ | _ | m
          · rfl
          · rfl
          · have hnone := hshort (m + 1) (by omega)
            rw [take_succ_cons] at hnone
            rw [take_succ_cons, take_succ_cons, upTo, if_neg hend, hnone]
            rfl

theorem incremental_line (first second : β) :
    Incremental (Decoder.line first second : Decoder β ε (List β)) where
  bounded h := (upTo_spec (Except.ok.inj h)).1
  exact h := by
    have hmore := (upTo_spec (Except.ok.inj h)).2.1 []
    rw [append_nil] at hmore
    exact congrArg Except.ok hmore
  extend {bytes a n} h more := by
    have hmore := (upTo_spec (Except.ok.inj h)).2.1 (bytes.drop n ++ more)
    rw [← append_assoc, List.take_append_drop] at hmore
    exact congrArg Except.ok hmore
  short h m hm := congrArg Except.ok ((upTo_spec (Except.ok.inj h)).2.2 m hm)

end Line

end HydraCache.Lib
