import HydraCache.Lib.Run

/-!
# Computations that may fail halfway

A method of the source that writes to a store and returns a `Result` may have written something by
the time it fails. Such a method is a program of the monad `Fallible`: it reads and writes a state
and may stop with an error, and what it wrote before stays written. `Returns x s a s'` says that
`x`, started in `s`, returns `a` and leaves `s'`; the lemmas take a program apart along its binds,
and `returns_forM` is the rule for a loop. `Ends x s P` says that `P` holds of the state `x` leaves,
whether it returned or failed.
-/

set_option autoImplicit false

namespace HydraCache.Lib

variable {ε σ α β ℓ : Type}

/-- A computation on a state that may fail; what it wrote before it failed stays. -/
abbrev Fallible (ε σ : Type) := ExceptT ε (StateM σ)

/-- Started in `s`, the computation returns `a` and leaves `s'`. -/
def Returns (x : Fallible ε σ α) (s : σ) (a : α) (s' : σ) : Prop := x.run.run s = (.ok a, s')

variable {s s' : σ} {a : α} {b : β} {f : α → Fallible ε σ β} {update : σ → σ} {result : Unit}

@[simp] theorem returns_pure_iff {a' : α} :
    Returns (pure a : Fallible ε σ α) s a' s' ↔ a' = a ∧ s' = s := by
  constructor
  · intro h
    cases h
    exact ⟨rfl, rfl⟩
  · rintro ⟨rfl, rfl⟩
    rfl

theorem run_bind (x : Fallible ε σ α) (f : α → Fallible ε σ β) (s : σ) :
    (x >>= f).run.run s = match x.run.run s with
      | (.ok a, middle) => (f a).run.run middle
      | (.error error, middle) => (.error error, middle) := by
  rw [ExceptT.run_bind, StateT.run_bind]
  rcases x.run.run s with ⟨_ | a, middle⟩ <;> rfl

theorem run_liftExcept (x : Except ε α) (s : σ) :
    (liftExcept x : Fallible ε σ α).run.run s = (x, s) := by
  cases x <;> rfl

theorem run_get (s : σ) : (get : Fallible ε σ σ).run.run s = (.ok s, s) := rfl

theorem returns_bind_iff {x : Fallible ε σ α} :
    Returns (x >>= f) s b s' ↔ ∃ a middle, Returns x s a middle ∧ Returns (f a) middle b s' := by
  unfold Returns
  rw [run_bind]
  rcases x.run.run s with ⟨error | a, middle⟩
  · exact iff_of_false nofun nofun
  · refine ⟨fun h ↦ ⟨a, middle, rfl, h⟩, ?_⟩
    rintro ⟨_, _, ⟨⟩, hf⟩
    exact hf

@[simp] theorem returns_get_bind_iff {f : σ → Fallible ε σ β} :
    Returns (get >>= f) s b s' ↔ Returns (f s) s b s' := Iff.rfl

@[simp] theorem returns_modify_iff :
    Returns (modify update : Fallible ε σ Unit) s result s' ↔ s' = update s := by
  constructor
  · intro h
    cases h
    rfl
  · rintro rfl
    rfl

@[simp] theorem returns_modify_bind_iff {f : Unit → Fallible ε σ β} :
    Returns (modify update >>= f) s b s' ↔ Returns (f ()) (update s) b s' := Iff.rfl

@[simp] theorem returns_liftExcept_bind_iff {x : Except ε α} :
    Returns (liftExcept x >>= f) s b s' ↔ ∃ a, x = .ok a ∧ Returns (f a) s b s' := by
  rw [returns_bind_iff]
  cases x with
  | error => exact iff_of_false nofun nofun
  | ok found =>
    constructor
    · rintro ⟨_, _, ⟨⟩, hf⟩
      exact ⟨found, rfl, hf⟩
    · rintro ⟨_, ⟨⟩, hf⟩
      exact ⟨found, s, rfl, hf⟩

/-- The rule for a loop: what one pass keeps, moving from the elements that were done to the next
one, holds of all the elements at the end. -/
theorem returns_forM {elements : List ℓ} {body : ℓ → Fallible ε σ Unit} {I : List ℓ → σ → Prop}
    (hbody : ∀ done element rest s result s', done ++ element :: rest = elements → I done s →
      Returns (body element) s result s' → I (done ++ [element]) s') (hs : I [] s)
    (h : Returns (forM elements body) s result s') : I elements s' := by
  suffices hloop : ∀ rest done s, done ++ rest = elements → I done s →
      Returns (forM rest body) s result s' → I elements s' from hloop elements [] s rfl hs h
  intro rest
  induction rest with
  | nil =>
    intro done s hdone hI h
    rw [List.forM_nil, returns_pure_iff] at h
    rwa [← hdone, List.append_nil, h.2]
  | cons element rest ih =>
    intro done s hdone hI h
    rw [List.forM_cons, returns_bind_iff] at h
    obtain ⟨first, middle, hfirst, hrest⟩ := h
    refine ih (done ++ [element]) middle ?_ ?_ hrest
    · rw [List.append_assoc, List.singleton_append, hdone]
    · exact hbody done element rest s first middle hdone hI hfirst

/-- The state the computation leaves has the property, whether it returned or failed. -/
def Ends (x : Fallible ε σ α) (s : σ) (P : σ → Prop) : Prop := P (x.run.run s).2

/-- An operation as a step that is enabled when the operation succeeds. -/
def fallibleStep (op : ℓ → Fallible ε σ α) (s : σ) (label : ℓ) : Option σ :=
  okStep (fun s label ↦ (op label).run.run s) s label

theorem fallibleStep_eq_some_iff {op : ℓ → Fallible ε σ α} {label : ℓ} :
    fallibleStep op s label = some s' ↔ ∃ a, Returns (op label) s a s' :=
  okStep_eq_some_iff

end HydraCache.Lib
