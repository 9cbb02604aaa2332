import Mathlib.Data.List.Basic

/-!
# Runs of a partial step function

A system is given by a partial step function `step : σ → ℓ → Option σ`: a label names what happens
next (which party moves, what the environment answers), and `none` says that the label is not
enabled. A run follows a list of labels (`run`), so an interleaving of any number of parties is a
list of labels, and a statement about every interleaving is a statement about every list.

`Along step C s labels` says that every label of the run is taken in a state that satisfies `C`;
`along_congr` compares two such conditions. `run_invariant` is the rule every safety result of this
development goes through: what holds initially and is kept by each step taken under `C` holds at the
end of every run along `C`.

An operation that reports success or an error beside the next state is a step of a run in which
every operation succeeds (`okStep`); `bind_eq_ok_iff` takes a fallible computation apart. A system
that replies to requests leaves a list of replies behind (`trace`), and `trace_simulation` compares
two such systems; in `trace_told` the second is told something about each reply of the first, and
`agrees_iff_along` says along which condition the two agree at all.

A run can go on forever (`Endless`). What a step keeps holds at every point of it
(`endless_invariant`), and an event that lowers a rank no other step raises is seen no more from
some point on (`exists_quiet`).
-/

set_option autoImplicit false

namespace HydraCache.Lib

open List

variable {σ ℓ : Type*}

/-- The state a run reaches, or `none` when one of its labels is not enabled. -/
def run (step : σ → ℓ → Option σ) : σ → List ℓ → Option σ
  | s, [] => some s
  | s, label :: labels => (step s label).bind fun s' ↦ run step s' labels

/-- Every label of the run from `s` is taken in a state satisfying `C`. -/
def Along (step : σ → ℓ → Option σ) (C : σ → ℓ → Prop) : σ → List ℓ → Prop
  | _, [] => True
  | s, label :: labels => C s label ∧ ∀ s', step s label = some s' → Along step C s' labels

/-- A run is followed to see whether it stays along a decidable condition. -/
instance Along.decidable (step : σ → ℓ → Option σ) (C : σ → ℓ → Prop)
    [∀ s label, Decidable (C s label)] : ∀ s labels, Decidable (Along step C s labels)
  | _, [] => .isTrue trivial
  | s, label :: labels =>
    match h : step s label with
    | none => decidable_of_iff (C s label)
        ⟨fun hC ↦ ⟨hC, fun s' hs' ↦ absurd (h.symm.trans hs') (Option.some_ne_none s').symm⟩,
          And.left⟩
    | some s' =>
      have := Along.decidable step C s' labels
      decidable_of_iff (C s label ∧ Along step C s' labels)
        ⟨fun hC ↦ ⟨hC.1, fun _ hs'' ↦ Option.some.inj (h.symm.trans hs'') ▸ hC.2⟩,
          fun hC ↦ ⟨hC.1, hC.2 s' h⟩⟩

@[simp] theorem run_nil (step : σ → ℓ → Option σ) (s : σ) : run step s [] = some s := rfl

variable {step : σ → ℓ → Option σ} {s s' : σ} {C D : σ → ℓ → Prop} {I : σ → Prop} {label : ℓ}
  {labels requests first second : List ℓ}

/-- A run is followed to its end to see what holds there. -/
theorem exists_eq_some {reached : Option σ} (P : σ → Prop) [DecidablePred P] {Q : σ → Prop}
    (h : reached.any (P ·) = true) (hQ : ∀ s, reached = some s → P s → Q s) :
    ∃ s, reached = some s ∧ Q s := by
  obtain ⟨s, hreach, hs⟩ : ∃ s, reached = some s ∧ P s := by simpa [Option.any_eq_true] using h
  exact ⟨s, hreach, hQ s hreach hs⟩

theorem run_cons_eq_some : run step s (label :: labels) = some s' ↔
      ∃ middle, step s label = some middle ∧ run step middle labels = some s' := by
  simp only [run, Option.bind_eq_some_iff]

theorem run_append_eq_some : run step s (first ++ second) = some s' ↔
      ∃ middle, run step s first = some middle ∧ run step middle second = some s' := by
  induction first generalizing s with
  | nil => simp
  | cons _ _ ih =>
    simp only [cons_append, run_cons_eq_some, ih]
    constructor
    · rintro ⟨next, hstep, middle, hfirst, hsnd⟩
      exact ⟨middle, ⟨next, hstep, hfirst⟩, hsnd⟩
    · rintro ⟨middle, ⟨next, hstep, hfirst⟩, hsnd⟩
      exact ⟨next, hstep, middle, hfirst, hsnd⟩

/-- One label more, in front. -/
theorem Along.cons (hstep : step s label = some s') (hC : C s label)
    (h : Along step C s' labels) : Along step C s (label :: labels) :=
  ⟨hC, fun _ hnext ↦ Option.some.inj (hstep.symm.trans hnext) ▸ h⟩

theorem Along.and (hC : Along step C s labels) (hD : Along step D s labels) :
    Along step (fun s label ↦ C s label ∧ D s label) s labels := by
  induction labels generalizing s with
  | nil => trivial
  | cons _ _ ih => exact ⟨⟨hC.1, hD.1⟩, fun s' hstep ↦ ih (hC.2 s' hstep) (hD.2 s' hstep)⟩

theorem Along.imp (hCD : ∀ s, ∀ label ∈ labels, C s label → D s label)
    (hC : Along step C s labels) :
    Along step D s labels := by
  induction labels generalizing s with
  | nil => trivial
  | cons label _ ih =>
    refine ⟨hCD s label mem_cons_self hC.1, fun s' hstep ↦ ?_⟩
    exact ih (fun s other hother ↦ hCD s other (mem_cons_of_mem _ hother)) (hC.2 s' hstep)

/-- Assumes: where `R` holds, `C` and `D` say the same of a step, and the steps under them keep `R`.
A run from a state of `R` goes along the one exactly if it goes along the other. -/
theorem along_congr {R : σ → Prop} (hiff : ∀ s label, R s → (C s label ↔ D s label))
    (hnext : ∀ s label s', R s → C s label → step s label = some s' → R s') (hR : R s) :
    Along step C s labels ↔ Along step D s labels := by
  induction labels generalizing s with
  | nil => exact Iff.rfl
  | cons label _ ih =>
    rw [Along, Along, hiff s label hR]
    refine and_congr_right fun hD ↦ forall_congr' fun s' ↦ forall_congr' fun hs' ↦ ?_
    exact ih (hnext s label s' hR ((hiff s label hR).mpr hD) hs')

theorem along_append_iff : Along step C s (first ++ second) ↔
      Along step C s first ∧ ∀ s', run step s first = some s' → Along step C s' second := by
  induction first generalizing s with
  | nil => simp [Along]
  | cons _ _ ih =>
    simp only [cons_append, Along, ih, run_cons_eq_some]
    constructor
    · rintro ⟨hC, hrest⟩
      refine ⟨⟨hC, fun s' hstep ↦ (hrest s' hstep).1⟩, ?_⟩
      rintro s' ⟨middle, hstep, hrun⟩
      exact (hrest middle hstep).2 s' hrun
    · rintro ⟨⟨hC, hrest⟩, hsnd⟩
      exact ⟨hC, fun s' hstep ↦ ⟨hrest s' hstep, fun s'' hrun ↦ hsnd s'' ⟨s', hstep, hrun⟩⟩⟩

theorem along_of_forall_mem (h : ∀ label ∈ labels, ∀ s, C s label) (s : σ) :
    Along step C s labels := by
  induction labels generalizing s with
  | nil => trivial
  | cons label _ ih =>
    refine ⟨h label mem_cons_self s, fun s' _ ↦ ih (fun other hother ↦ ?_) s'⟩
    exact h other (mem_cons_of_mem _ hother)

/-- Assumes: an invariant that every step taken under `C` keeps, a state satisfying it, and a run
from that state along `C`. The invariant holds where the run ends. -/
theorem run_invariant (hstep : ∀ s label s', C s label → I s → step s label = some s' → I s')
    (hs : I s) (halong : Along step C s labels) (hrun : run step s labels = some s') : I s' := by
  induction labels generalizing s with
  | nil =>
    cases hrun
    exact hs
  | cons label _ ih =>
    obtain ⟨middle, hmiddle, hrest⟩ := run_cons_eq_some.mp hrun
    exact ih (hstep s label middle halong.1 hs hmiddle) (halong.2 middle hmiddle) hrest

/-- What every step keeps holds where a run ends. -/
theorem invariant_of_run (hstep : ∀ s label s', I s → step s label = some s' → I s') (hs : I s)
    (hrun : run step s labels = some s') : I s' :=
  run_invariant (C := fun _ _ ↦ True) (fun s label s' _ ↦ hstep s label s') hs
    (along_of_forall_mem (fun _ _ _ ↦ trivial) s) hrun

/-! ### Endless runs -/

/-- A run from `s` that goes on forever, each step of it taken under `C`. -/
structure Endless (step : σ → ℓ → Option σ) (C : σ → ℓ → Prop) (s : σ) (states : ℕ → σ)
    (labels : ℕ → ℓ) : Prop where
  start : states 0 = s
  taken : ∀ n, step (states n) (labels n) = some (states (n + 1))
  along : ∀ n, C (states n) (labels n)

variable {states : ℕ → σ} {rest : ℕ → ℓ}

theorem endless_invariant (hstep : ∀ s label s', C s label → I s → step s label = some s' → I s')
    (hs : I s) (h : Endless step C s states rest) (n : ℕ) : I (states n) := by
  induction n with
  | zero => rwa [h.start]
  | succ n ih => exact hstep _ _ _ (h.along n) ih (h.taken n)

/-- A run that goes on forever from where another one ends. -/
theorem Endless.after (h : Endless step C s' states rest) (halong : Along step C s labels)
    (hrun : run step s labels = some s') : ∃ states' labels', Endless step C s states' labels' ∧
      ∀ n, states' (labels.length + n) = states n := by
  induction labels generalizing s with
  | nil =>
    cases hrun
    exact ⟨states, rest, h, fun n ↦ by rw [length_nil, Nat.zero_add]⟩
  | cons label labels ih =>
    obtain ⟨middle, hstep, hrest⟩ := run_cons_eq_some.mp hrun
    obtain ⟨states', labels', h', hend⟩ := ih (halong.2 middle hstep) hrest
    refine ⟨fun n ↦ n.casesOn s states', fun n ↦ n.casesOn label labels', ?_, ?_⟩
    · refine ⟨rfl, Nat.rec ?_ fun n _ ↦ h'.taken n, Nat.rec halong.1 fun n _ ↦ h'.along n⟩
      exact hstep.trans (congrArg some h'.start.symm)
    · intro n
      rw [length_cons, Nat.succ_add]
      exact hend n

/-- Assumes: from `n` on no step raises the rank, and the event lowers it. From some point on there
is no such event. -/
theorem exists_quiet (rank : ℕ → ℕ) {event : ℕ → Prop} {n : ℕ}
    (hle : ∀ m ≥ n, rank (m + 1) ≤ rank m) (hlt : ∀ m ≥ n, event m → rank (m + 1) < rank m) :
    ∃ quiet ≥ n, ∀ m ≥ quiet, ¬ event m := by
  induction hrank : rank n using Nat.strongRecOn generalizing n with
  | _ r ih =>
    by_cases hevent : ∃ m ≥ n, event m
    · obtain ⟨m, hm, hevent⟩ := hevent
      have hpre : ∀ k, rank (n + k) ≤ rank n := by
        intro k
        induction k with
        | zero => exact Nat.le_refl _
        | succ k hk => exact Nat.le_trans (hle (n + k) (by omega)) hk
      obtain ⟨k, rfl⟩ := Nat.exists_eq_add_of_le hm
      have hbelow : rank (n + k + 1) < r :=
        hrank ▸ Nat.lt_of_lt_of_le (hlt (n + k) hm hevent) (hpre k)
      obtain ⟨quiet, hquiet, hnone⟩ := ih _ hbelow (fun k hk ↦ hle k (by omega))
        (fun k hk ↦ hlt k (by omega)) rfl
      exact ⟨quiet, by omega, hnone⟩
    · exact ⟨n, Nat.le_refl _, fun m hm h ↦ hevent ⟨m, hm, h⟩⟩

/-! ### Runs with replies -/

variable {τ ρ ρ' : Type*}

/-- The replies to the requests one after another, and the state after the last. -/
def trace (apply : σ → ℓ → ρ × σ) : σ → List ℓ → List ρ × σ
  | s, [] => ([], s)
  | s, request :: requests =>
    let (reply, next) := apply s request
    let (replies, final) := trace apply next requests
    (reply :: replies, final)

/-- The state after one more request. -/
theorem trace_concat {apply : σ → ℓ → ρ × σ} :
    (trace apply s (requests ++ [label])).2 = (apply (trace apply s requests).2 label).2 := by
  induction requests generalizing s with
  | nil => rfl
  | cons _ _ ih => exact ih

variable {apply : σ → ℓ → ρ × σ} {R : σ → τ → Prop} {t : τ}

/-- Assumes: two systems whose related states answer every request that `C` allows with replies that
correspond, and go on to related states. They do so over any sequence of such requests. -/
theorem trace_simulation {apply' : τ → ℓ → ρ' × τ} {f : ρ' → ρ} {C : τ → ℓ → Prop}
    (hstep : ∀ s t request, R s t → C t request →
      (apply s request).1 = f (apply' t request).1 ∧ R (apply s request).2 (apply' t request).2)
    (hR : R s t) (hC : Along (fun t request ↦ some (apply' t request).2) C t requests) :
    (trace apply s requests).1 = (trace apply' t requests).1.map f ∧
      R (trace apply s requests).2 (trace apply' t requests).2 := by
  induction requests generalizing s t with
  | nil => exact ⟨rfl, hR⟩
  | cons request _ ih =>
    obtain ⟨hreply, hnext⟩ := hstep s t request hR hC.1
    obtain ⟨hreplies, hfinal⟩ := ih hnext (hC.2 _ rfl)
    refine ⟨?_, hfinal⟩
    change (apply s request).1 :: _ = f (apply' t request).1 :: _
    rw [hreply, hreplies]

/-- Assumes: related states in which the second system, told something about the reply of the first,
gives the same reply and goes on to a related state. It gives the same replies to any sequence of
requests. -/
theorem trace_told {κ : Type*} {apply' : τ → ℓ × κ → ρ × τ} {told : ρ → κ}
    (hstep : ∀ s t request, R s t →
      (apply' t (request, told (apply s request).1)).1 = (apply s request).1 ∧
        R (apply s request).2 (apply' t (request, told (apply s request).1)).2)
    (hR : R s t) (requests : List ℓ) :
    (trace apply' t (requests.zip ((trace apply s requests).1.map told))).1 =
      (trace apply s requests).1 := by
  induction requests generalizing s t with
  | nil => rfl
  | cons request _ ih =>
    obtain ⟨hreply, hnext⟩ := hstep s t request hR
    change (apply' t (request, told (apply s request).1)).1 :: _ = (apply s request).1 :: _
    rw [hreply]
    exact congrArg _ (ih hnext)

/-- Two systems give the same replies to the requests, and the first keeps `I` after each. -/
def Agrees (apply : σ → ℓ → ρ × σ) (apply' : τ → ℓ → ρ × τ) (I : σ → Prop) : σ → τ → List ℓ → Prop
  | _, _, [] => True
  | s, t, request :: requests =>
    ((apply s request).1 = (apply' t request).1 ∧ I (apply s request).2) ∧
      Agrees apply apply' I (apply s request).2 (apply' t request).2 requests

instance Agrees.decidable [DecidableEq ρ] (apply : σ → ℓ → ρ × σ) (apply' : τ → ℓ → ρ × τ)
    (I : σ → Prop)
    [DecidablePred I] : ∀ s t requests, Decidable (Agrees apply apply' I s t requests)
  | _, _, [] => .isTrue trivial
  | s, t, request :: requests =>
    have := Agrees.decidable apply apply' I (apply s request).2 (apply' t request).2 requests
    inferInstanceAs (Decidable ((_ = _ ∧ I _) ∧ Agrees apply apply' I _ _ requests))

/-- Assumes: related states agree on a request of `K` exactly where `C` holds, and then go on to
related states. They agree on requests of `K` exactly along `C`. -/
theorem agrees_iff_along {apply' : τ → ℓ → ρ × τ} {K : ℓ → Prop}
    (hagrees : ∀ s t request, R s t → K request →
      ((apply s request).1 = (apply' t request).1 ∧ I (apply s request).2 ↔ C s request))
    (hnext : ∀ s t request, R s t → K request → C s request →
      R (apply s request).2 (apply' t request).2)
    (hR : R s t) (hK : ∀ request ∈ requests, K request) :
    Agrees apply apply' I s t requests ↔
      Along (fun s request ↦ some (apply s request).2) C s requests := by
  induction requests generalizing s t with
  | nil => exact Iff.rfl
  | cons request _ ih =>
    obtain ⟨hreq, hreqs⟩ := forall_mem_cons.mp hK
    rw [Agrees, Along, hagrees s t request hR hreq]
    refine and_congr_right fun hC ↦ (ih (hnext s t request hR hreq hC) hreqs).trans ?_
    constructor
    · rintro halong _ ⟨⟩
      exact halong
    · intro halong
      exact halong _ rfl

/-! ### Fallible operations -/

universe u

variable {ε : Type*} {α β : Type u}

@[simp] theorem ok_bind (a : α) (f : α → Except ε β) : (Except.ok a >>= f) = f a := rfl

theorem bind_eq_ok_iff {x : Except ε α} {f : α → Except ε β} {b : β} :
    (x >>= f) = .ok b ↔ ∃ a, x = .ok a ∧ f a = .ok b := by
  cases x with
  | error => exact iff_of_false nofun nofun
  | ok => simp

theorem mapError_eq_ok_iff {ε' : Type*} {x : Except ε α} {f : ε → ε'} {a : α} :
    x.mapError f = .ok a ↔ x = .ok a := by
  cases x with
  | error => exact iff_of_false nofun nofun
  | ok =>
    constructor <;>
    · intro h
      cases h
      rfl

/-- An operation as a step that is enabled when the operation succeeds. -/
def okStep (op : σ → ℓ → Except ε α × σ) (s : σ) (label : ℓ) : Option σ :=
  match op s label with
  | (.ok _, next) => some next
  | (.error _, _) => none

theorem okStep_eq_some_iff {op : σ → ℓ → Except ε α × σ} :
    okStep op s label = some s' ↔ ∃ a, op s label = (.ok a, s') := by
  unfold okStep
  rcases op s label with ⟨_ | a, next⟩ <;> simp

end HydraCache.Lib
