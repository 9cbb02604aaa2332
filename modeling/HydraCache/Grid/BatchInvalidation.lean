import HydraCache.Grid.ActiveActive
import HydraCache.Lib.OrderedMap
import HydraCache.Lib.Run

/-!
# Watermarks of invalidations

Invalidations of single keys and of batches are recorded as watermarks, one for each key. A single
one is taken unless it is older, by (version, epoch), than what is recorded. A batch is taken in any
case, so that an older one takes the place of a newer watermark (`older_batch_recorded`).

Where no batch is older than what is recorded, the most recent watermark of every key is recorded,
whatever the order of the invalidations (`recorded_newest`).

Scope. That the keys of a batch are of one partition is checked where it is built, and nothing here
uses it.
-/

set_option autoImplicit false

namespace HydraCache.Grid

open Lib List OrderedMap

/-- What watermarks are compared by. -/
def WriteWatermark.recency (watermark : WriteWatermark) : ℕ ×ₗ ℕ :=
  toLex (watermark.version, watermark.epoch)

structure InvalidateBatch where
  partition : ℕ
  keys : List String
  version : ℕ
  epoch : ℕ

def InvalidateBatch.watermark (batch : InvalidateBatch) : WriteWatermark :=
  ⟨batch.partition, batch.version, batch.epoch⟩

inductive Invalidation where
  | batch (taken : InvalidateBatch)
  | single (key : String) (watermark : WriteWatermark)

/-- The watermarks that some invalidations apply to a key. -/
def Invalidation.watermarks (key : String) (invalidations : List Invalidation) :
    List WriteWatermark :=
  invalidations.flatMap fun
    | .batch taken => if key ∈ taken.keys then [taken.watermark] else []
    | .single name watermark => if key = name then [watermark] else []

structure BatchInvalidationState where
  applied : OrderedMap String WriteWatermark := ∅

namespace BatchInvalidationState

open Invalidation WriteWatermark

section

variable (s : BatchInvalidationState)

def applyBatch (batch : InvalidateBatch) : BatchInvalidationState :=
  ⟨batch.keys.foldl (·.insert · batch.watermark) s.applied⟩

def applySingle (key : String) (watermark : WriteWatermark) : BatchInvalidationState :=
  if (s.applied.get key).all (·.recency ≤ watermark.recency) then ⟨s.applied.insert key watermark⟩
    else s

def apply : Invalidation → Option BatchInvalidationState
  | .batch taken => s.applyBatch taken
  | .single key watermark => s.applySingle key watermark

/-- A batch is not older than what is recorded. -/
def InOrder : Invalidation → Prop
  | .batch taken => ∀ key ∈ taken.keys, ∀ current ∈ s.applied.get key,
    current.recency ≤ taken.watermark.recency
  | .single .. => True

instance : ∀ invalidation, Decidable (s.InOrder invalidation)
  | .batch _ => inferInstanceAs (Decidable (∀ key ∈ _, ∀ current ∈ _, _))
  | .single .. => .isTrue trivial

end

/-- The more recent of two watermarks, the second if they are as recent. -/
def newer (current watermark : WriteWatermark) : WriteWatermark :=
  if current.recency ≤ watermark.recency then watermark else current

theorem selectsBy_newer : SelectsBy recency (fun _ ↦ false) newer where
  left h := if_neg h.not_ge
  right h := if_pos h.le
  either current watermark := by
    unfold newer
    split_ifs
    · exact .inr rfl
    · exact .inl rfl
  tie h := if_pos h.le

variable {s s' : BatchInvalidationState} {invalidation : Invalidation}
  {invalidations : List Invalidation} {past : List WriteWatermark}

theorem get_applyBatch (s : BatchInvalidationState) (batch : InvalidateBatch) (key : String) :
    (s.applyBatch batch).applied.get key =
      if key ∈ batch.keys then some batch.watermark else s.applied.get key := by
  unfold applyBatch
  generalize s.applied = recorded
  induction batch.keys generalizing recorded with
  | nil => rfl
  | cons first keys ih =>
    rw [foldl_cons, ih, get_insert]
    by_cases hfirst : key = first <;> simp [hfirst]

theorem get_apply (horder : s.InOrder invalidation) (h : s.apply invalidation = some s')
    (key : String) (hrec : s.applied.get key = accumulate newer past) :
    s'.applied.get key = accumulate newer (past ++ watermarks key [invalidation]) := by
  unfold accumulate at hrec ⊢
  rw [foldl_append, ← hrec, watermarks, flatMap_singleton]
  cases invalidation with
  | batch taken =>
    cases h
    rw [get_applyBatch]
    dsimp only
    split_ifs with hkey
    · cases hget : s.applied.get key with
      | none => rfl
      | some current => exact congrArg some (if_pos (horder key hkey current hget)).symm
    · rfl
  | single name watermark =>
    cases h
    rw [applySingle]
    dsimp only
    by_cases hkey : key = name
    · subst hkey
      rw [if_pos rfl]
      cases hget : s.applied.get key with
      | none => simp [get_insert]
      | some current =>
        by_cases hle : current.recency ≤ watermark.recency <;> simp [newer, get_insert, hle, hget]
    · rw [if_neg hkey]
      split_ifs
      · exact get_insert_of_ne _ _ hkey
      · rfl

theorem get_run (horder : Along apply InOrder s invalidations)
    (hrun : run apply s invalidations = some s') (key : String) (past : List WriteWatermark)
    (hrec : s.applied.get key = accumulate newer past) :
    s'.applied.get key = accumulate newer (past ++ watermarks key invalidations) := by
  induction invalidations generalizing s past with
  | nil =>
    cases hrun
    rw [hrec, watermarks, flatMap_nil, append_nil]
  | cons invalidation invalidations ih =>
    obtain ⟨middle, hstep, hrest⟩ := run_cons_eq_some.mp hrun
    have hall := ih (horder.2 middle hstep) hrest _ (get_apply horder.1 hstep key hrec)
    rwa [append_assoc, watermarks, watermarks, ← flatMap_append] at hall

/-- Assumes: no batch older than what is recorded. For each key the most recent of the watermarks
applied to it is recorded. If those as recent as it are the same, any others without an older batch
that apply the same watermarks record the same. -/
theorem recorded_newest (horder : Along apply InOrder {} invalidations)
    (hrun : run apply {} invalidations = some s) (key : String) :
    (s.applied.get key = none ↔ watermarks key invalidations = []) ∧
      (∀ newest ∈ s.applied.get key,
        Tops recency {other | other ∈ watermarks key invalidations} newest) ∧
      ((∀ newest other, Tops recency {other | other ∈ watermarks key invalidations} newest →
          Tops recency {other | other ∈ watermarks key invalidations} other → newest = other) →
        ∀ others s', Along apply InOrder {} others → run apply {} others = some s' →
          (∀ watermark, watermark ∈ watermarks key others ↔
            watermark ∈ watermarks key invalidations) →
          s'.applied.get key = s.applied.get key) := by
  rw [get_run horder hrun key [] rfl, nil_append]
  refine ⟨accumulate_eq_none, fun newest ↦ selectsBy_newer.tops_of_accumulate,
    fun hagree others s' horders hruns hsame ↦ ?_⟩
  exact (get_run horders hruns key [] rfl).trans
    ((selectsBy_newer.accumulate_congr_iff _).mpr hagree _ _ hsame fun _ ↦ .rfl)

/-- A batch, an older single invalidation and a newer batch. -/
theorem recorded_newest_batches :
    ∃ invalidations s, run apply {} invalidations = some s ∧
      Tops recency {other | other ∈ watermarks "a" invalidations} ⟨0, 2, 1⟩ :=
  ⟨[.batch ⟨0, ["a", "b"], 2, 1⟩, .single "a" ⟨0, 1, 1⟩, .batch ⟨0, ["b"], 3, 1⟩], _, rfl,
    (recorded_newest (by decide) rfl "a").2.1 _ (by decide)⟩

/-- Two batches of one key: the one that comes last is recorded, in either order. -/
theorem older_batch_recorded :
    (run apply {} [.batch ⟨0, ["a"], 1, 1⟩, .batch ⟨0, ["a"], 2, 1⟩]).map (·.applied.get "a") =
        some (some ⟨0, 2, 1⟩) ∧
      (run apply {} [.batch ⟨0, ["a"], 2, 1⟩, .batch ⟨0, ["a"], 1, 1⟩]).map (·.applied.get "a") =
        some (some ⟨0, 1, 1⟩) := by
  decide

end BatchInvalidationState

end HydraCache.Grid
