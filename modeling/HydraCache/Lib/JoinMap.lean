import HydraCache.Lib.OrderedMap

/-!
# Maps whose values are joined

Where the values of a map form a join semilattice with a least element, so do the maps: a key that
is absent lies below every value (`read`), and the join of two maps holds the keys of both, with the
values joined where both have one (`read_join`). A value is joined in at a key by `joinAt`, which
starts from the least element where the key is absent, and that never lowers a key (`le_joinAt`).
-/

set_option autoImplicit false

namespace HydraCache.Lib.OrderedMap

variable {K V : Type*} [LinearOrder K]

/-- The value at a key, with a least element for an absent one. -/
def read (m : OrderedMap K V) (key : K) : WithBot V := m.get key

variable {m : OrderedMap K V} {key : K} {bound : WithBot V}

theorem read_insert (m : OrderedMap K V) (key other : K) (value : V) :
    (m.insert key value).read other = if other = key then (value : WithBot V) else m.read other :=
  get_insert m key other value

theorem read_le_iff [Preorder V] :
    m.read key ≤ bound ↔ ∀ row ∈ m.rows, row.1 = key → (row.2 : WithBot V) ≤ bound := by
  constructor
  · rintro h row hrow rfl
    have hget : m.read row.1 = row.2 := (get_eq_some_iff m).mpr hrow
    exact hget ▸ h
  · intro h
    cases hget : m.get key with
    | none =>
      have hbot : m.read key = ⊥ := hget
      rw [hbot]
      exact bot_le
    | some value =>
      have hvalue : m.read key = value := hget
      rw [hvalue]
      exact h (key, value) ((get_eq_some_iff m).mp hget) rfl

variable [SemilatticeSup V] [OrderBot V]

section

variable (m : OrderedMap K V)

/-- The value at a key, or the least one. -/
def value (key : K) : V := (m.get key).getD ⊥

/-- A value joined in at a key. -/
def joinAt (key : K) (value : V) : OrderedMap K V :=
  m.insert key (m.value key ⊔ value)

/-- The values of the other map joined in, row by row. -/
def join (other : OrderedMap K V) : OrderedMap K V :=
  other.rows.foldl (fun m row ↦ m.joinAt row.1 row.2) m

theorem read_joinAt_self (key : K) (value : V) :
    (m.joinAt key value).read key = m.read key ⊔ value := by
  rw [joinAt, read_insert, if_pos rfl, WithBot.coe_sup, OrderedMap.value]
  cases hget : m.get key with
  | none =>
    have hbot : m.read key = ⊥ := hget
    rw [hbot, Option.getD_none, bot_sup_eq, ← WithBot.coe_sup, bot_sup_eq]
  | some found =>
    have hfound : m.read key = found := hget
    rw [hfound, Option.getD_some]

end

theorem read_foldl_joinAt_le_iff {rows : List (K × V)} :
    (rows.foldl (fun m row ↦ m.joinAt row.1 row.2) m).read key ≤ bound ↔
      m.read key ≤ bound ∧ ∀ row ∈ rows, row.1 = key → (row.2 : WithBot V) ≤ bound := by
  induction rows generalizing m with
  | nil => simp
  | cons row rows ih =>
    rw [List.foldl_cons, ih, List.forall_mem_cons, ← and_assoc]
    refine and_congr_left fun _ ↦ ?_
    by_cases hkey : row.1 = key
    · subst hkey
      rw [read_joinAt_self, sup_le_iff]
      simp
    · rw [joinAt, read_insert, if_neg (Ne.symm hkey)]
      simp [hkey]

theorem read_join (m other : OrderedMap K V) (key : K) :
    (m.join other).read key = m.read key ⊔ other.read key := by
  refine eq_of_forall_ge_iff fun bound ↦ ?_
  rw [join, read_foldl_joinAt_le_iff, sup_le_iff, read_le_iff (m := other)]

theorem value_eq_unbotD (m : OrderedMap K V) (key : K) : m.value key = (m.read key).unbotD ⊥ := by
  unfold value read
  cases m.get key <;> rfl

theorem value_join (m other : OrderedMap K V) (key : K) :
    (m.join other).value key = m.value key ⊔ other.value key := by
  simp only [value_eq_unbotD, read_join]
  induction m.read key with
  | bot => simp
  | coe => induction other.read key <;> simp [← WithBot.coe_sup]

theorem value_joinAt (m : OrderedMap K V) (key other : K) (value : V) :
    (m.joinAt key value).value other = if other = key then m.value key ⊔ value
      else m.value other := by
  unfold OrderedMap.value joinAt
  rw [get_insert]
  split_ifs <;> rfl

instance semilatticeSup : SemilatticeSup (OrderedMap K V) where
  sup := join
  le m other := ∀ key, m.read key ≤ other.read key
  le_refl _ _ := le_rfl
  le_trans _ _ _ h h' key := (h key).trans (h' key)
  le_antisymm _ _ h h' := ext_get fun key ↦ (h key).antisymm (h' key)
  le_sup_left m other key := by
    rw [read_join]
    exact le_sup_left
  le_sup_right m other key := by
    rw [read_join]
    exact le_sup_right
  sup_le m other bound h h' key := by
    rw [read_join]
    exact sup_le (h key) (h' key)

instance orderBot : OrderBot (OrderedMap K V) where
  bot := ∅
  bot_le _ _ := bot_le

/-- Assumes: a value not below the one at the key. Inserting it lowers no key. -/
theorem le_insert {value : V} (h : m.read key ≤ value) : m ≤ m.insert key value := by
  intro other
  rw [read_insert]
  split_ifs with hkey
  · exact hkey ▸ h
  · exact le_rfl

theorem le_joinAt (m : OrderedMap K V) (key : K) (value : V) : m ≤ m.joinAt key value := by
  refine le_insert ?_
  have hjoin := read_joinAt_self m key value
  rw [joinAt, read_insert, if_pos rfl] at hjoin
  rw [hjoin]
  exact le_sup_left

/-- Assumes: weights that grow with the values. A join lowers no total. -/
theorem total_le_join {weight : V → ℕ} (hweight : Monotone weight) (m other : OrderedMap K V) :
    m.total weight ≤ (m.join other).total weight := by
  unfold join
  induction other.rows generalizing m with
  | nil => exact le_rfl
  | cons row rows ih =>
    refine le_trans ?_ (ih (m.joinAt row.1 row.2))
    refine total_le_insert m fun old hold ↦ hweight ?_
    rw [OrderedMap.value, hold]
    exact le_sup_left

end HydraCache.Lib.OrderedMap
