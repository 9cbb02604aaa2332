import Mathlib.Algebra.Order.Ring.Nat
import Mathlib.Data.List.Pairwise
import Mathlib.Data.List.Sort

/-!
# Maps kept in the order of their keys

An ordered map is a list of rows in strictly ascending order of their keys, so that no key stands
twice. `get_insert`, `get_modify`, `get_retain`, `get_filter`, `get_remove` and `get_set` say what
each operation does to every key. Maps that answer alike are equal (`ext_get`), and the rows after
an insertion are the new row and the others in some order (`rows_insert_perm`). Inserting a list of
rows is inserting the last row of each key (`insertAll_ofList`).

Reading a map in order is filtering the rows (`scan`); two maps that hold the same rows are equal in
that order (`scan_eq_of_mem_iff`). A row with a key beyond all the rows of a scan is the last of the
scan (`scan_insert_last`).
-/

set_option autoImplicit false

namespace HydraCache.Lib

open List

/-- A map whose rows stand in ascending order of their keys. -/
structure OrderedMap (K V : Type*) [LinearOrder K] where
  rows : List (K × V)
  sorted : rows.Pairwise fun row other ↦ row.1 < other.1

namespace OrderedMap

variable {K V : Type*} [LinearOrder K]

instance [DecidableEq V] : DecidableEq (OrderedMap K V) := fun m other ↦
  decidable_of_iff (m.rows = other.rows) ⟨fun h ↦ by cases m; cases other; congr, congrArg rows⟩

def empty : OrderedMap K V := ⟨[], .nil⟩

instance : EmptyCollection (OrderedMap K V) := ⟨empty⟩

section

variable (m : OrderedMap K V)

section

variable (key : K)

def get : Option V :=
  (m.rows.find? (·.1 = key)).map Prod.snd

/-- The rows whose key is kept. -/
def retain (keep : K → Bool) (m : OrderedMap K V) : OrderedMap K V where
  rows := m.rows.filter (keep ·.1)
  sorted := m.sorted.filter _

def remove : OrderedMap K V := m.retain (· ≠ key)

/-- The rows that are kept, by key and value. -/
def filter (keep : K → V → Bool) (m : OrderedMap K V) : OrderedMap K V where
  rows := m.rows.filter fun row ↦ keep row.1 row.2
  sorted := m.sorted.filter _

theorem sorted_insert (value : V) :
    (m.rows.filter (·.1 < key) ++ (key, value) :: m.rows.filter (key < ·.1)).Pairwise
      fun row other ↦ row.1 < other.1 := by
  rw [pairwise_append, pairwise_cons]
  refine ⟨m.sorted.filter _, ⟨?_, m.sorted.filter _⟩, ?_⟩
  · intro other hother
    exact of_decide_eq_true (mem_filter.mp hother).2
  · intro row hrow other hother
    have hrowLt : row.1 < key := of_decide_eq_true (mem_filter.mp hrow).2
    rcases mem_cons.mp hother with rfl | hother
    · exact hrowLt
    · exact hrowLt.trans (of_decide_eq_true (mem_filter.mp hother).2)

def insert (value : V) : OrderedMap K V where
  rows := m.rows.filter (·.1 < key) ++ (key, value) :: m.rows.filter (key < ·.1)
  sorted := sorted_insert m key value

theorem sorted_modify (f : V → V) :
    (m.rows.map fun row ↦ if row.1 = key then (row.1, f row.2) else row).Pairwise
      fun row other ↦ row.1 < other.1 := by
  rw [pairwise_map]
  refine m.sorted.imp fun {row other} hlt ↦ ?_
  split_ifs <;> exact hlt

/-- The value under the key changed in place. -/
def modify (f : V → V) : OrderedMap K V where
  rows := m.rows.map fun row ↦ if row.1 = key then (row.1, f row.2) else row
  sorted := sorted_modify m key f

/-- Every value changed. -/
def mapValues {W : Type*} (f : V → W) (m : OrderedMap K V) : OrderedMap K W where
  rows := m.rows.map fun row ↦ (row.1, f row.2)
  sorted := pairwise_map.mpr m.sorted

/-- The key with a value, or without one. -/
def set : Option V → OrderedMap K V
  | some value => m.insert key value
  | none => m.remove key

end

/-- The rows inserted one after another. -/
def insertAll (rows : List (K × V)) : OrderedMap K V :=
  rows.foldl (fun m row ↦ m.insert row.1 row.2) m

end

/-- The last row of each key. -/
def ofList (rows : List (K × V)) : OrderedMap K V := insertAll ∅ rows

/-- The weights of all values together. -/
def total (weight : V → ℕ) (m : OrderedMap K V) : ℕ := (m.rows.map fun row ↦ weight row.2).sum

/-- The rows at the keys that satisfy `p`, in the order of the keys. -/
def scan (p : K → Bool) (m : OrderedMap K V) : List (K × V) := m.rows.filter (p ·.1)

variable (m : OrderedMap K V) {key other : K} {value found : V} {p : K → Bool} {rows : List (K × V)}

/-! ### Lookups -/

@[simp] theorem get_empty (key : K) : (∅ : OrderedMap K V).get key = none := rfl

theorem get_eq_some_iff : m.get key = some value ↔ (key, value) ∈ m.rows := by
  unfold get
  constructor
  · intro h
    obtain ⟨row, hfind, rfl⟩ := Option.map_eq_some_iff.mp h
    have hkey := List.find?_some hfind
    rw [← of_decide_eq_true hkey]
    exact mem_of_find?_eq_some hfind
  · intro h
    have hsome : (m.rows.find? (·.1 = key)).isSome := by
      rw [List.find?_isSome]
      exact ⟨_, h, decide_eq_true rfl⟩
    obtain ⟨row, hfind⟩ := Option.isSome_iff_exists.mp hsome
    have hkey : row.1 = key := by simpa using List.find?_some hfind
    -- two rows under one key are one row
    have hrow : row = (key, value) := by
      by_contra hne
      have hsymm : Std.Symm fun row other : K × V ↦ row.1 ≠ other.1 := ⟨fun _ _ ↦ Ne.symm⟩
      have hdist : m.rows.Pairwise fun row other ↦ row.1 ≠ other.1 := m.sorted.imp LT.lt.ne
      exact hdist.forall (mem_of_find?_eq_some hfind) h hne hkey
    rw [hfind, hrow]
    rfl

section

variable (m : OrderedMap K V) {W : Type*}

theorem get_insert (key other : K) (value : V) :
    (m.insert key value).get other = if other = key then some value else m.get other := by
  apply Option.ext
  intro found
  have hmem : (other, found) ∈ (m.insert key value).rows ↔
      (other = key ∧ found = value) ∨ (other ≠ key ∧ (other, found) ∈ m.rows) := by
    simp only [insert, mem_append, mem_cons, mem_filter, decide_eq_true_eq,
      Prod.mk.injEq, ne_iff_lt_or_gt]
    tauto
  rw [get_eq_some_iff, hmem]
  split_ifs with h
  · simp [h, eq_comm]
  · simp [h, get_eq_some_iff]

theorem get_insert_self (key : K) (value : V) : (m.insert key value).get key = some value := by
  rw [get_insert, if_pos rfl]

theorem get_insert_of_ne (value : V) (h : other ≠ key) :
    (m.insert key value).get other = m.get other := by
  rw [get_insert, if_neg h]

theorem get_retain (keep : K → Bool) (key : K) :
    (m.retain keep).get key = if keep key then m.get key else none := by
  apply Option.ext
  intro found
  rw [get_eq_some_iff]
  split_ifs with h <;> simp [retain, mem_filter, get_eq_some_iff, h]

theorem get_filter (keep : K → V → Bool) (key : K) :
    (m.filter keep).get key = (m.get key).filter (keep key) := by
  apply Option.ext
  intro found
  rw [get_eq_some_iff, Option.filter_eq_some_iff, get_eq_some_iff, filter, mem_filter]

theorem get_remove (key other : K) :
    (m.remove key).get other = if other = key then none else m.get other := by
  rw [remove, get_retain]
  split_ifs with hne h h <;> simp_all

theorem get_modify (key other : K) (f : V → V) :
    (m.modify key f).get other = if other = key then (m.get key).map f else m.get other := by
  have hkey (row : K × V) : (if row.1 = key then (row.1, f row.2) else row).1 = row.1 := by
    split_ifs <;> rfl
  rw [get, modify, find?_map]
  simp only [Function.comp_def, hkey]
  cases hfind : m.rows.find? (·.1 = other) with
  | none =>
    split_ifs with h
    · rw [← h, get, hfind]
      rfl
    · rw [get, hfind]
      rfl
  | some row =>
    have hrow : row.1 = other := by simpa using List.find?_some hfind
    split_ifs with h
    · simp [← h, get, hfind, hrow]
    · simp [get, hfind, hrow, h]

theorem get_mapValues (m : OrderedMap K V) (f : V → W) (key : K) :
    (m.mapValues f).get key = (m.get key).map f := by
  simp [get, mapValues, find?_map, Function.comp_def]

instance : Std.Antisymm fun row other : K × V ↦ row.1 < other.1 :=
    ⟨fun _ _ h h' ↦ absurd h h'.asymm⟩

instance : Std.Irrefl fun row other : K × V ↦ row.1 < other.1 := ⟨fun _ ↦ lt_irrefl _⟩

/-- Maps that answer alike are equal. -/
theorem ext_get {m other : OrderedMap K V} (h : ∀ key, m.get key = other.get key) : m = other := by
  have hrows : m.rows = other.rows := by
    refine m.sorted.eq_of_mem_iff other.sorted fun row ↦ ?_
    rw [← get_eq_some_iff, ← get_eq_some_iff, h]
  cases m
  cases other
  congr

/-! ### Values put and taken away -/

theorem get_set (key other : K) (value : Option V) :
    (m.set key value).get other = if other = key then value else m.get other := by
  cases value with
  | none => exact get_remove m key other
  | some value => exact get_insert m key other value

theorem set_get (key : K) : m.set key (m.get key) = m := by
  refine ext_get fun other ↦ ?_
  rw [get_set]
  split_ifs with h
  · rw [h]
  · rfl

theorem set_set (key : K) (value value' : Option V) :
    (m.set key value).set key value' = m.set key value' := by
  refine ext_get fun other ↦ ?_
  rw [get_set, get_set, get_set]
  split_ifs <;> rfl

theorem filter_set (keep : K → V → Bool) (key : K) (value : Option V) :
    (m.set key value).filter keep = (m.filter keep).set key (value.filter (keep key)) := by
  refine ext_get fun other ↦ ?_
  rw [get_filter, get_set, get_set, get_filter]
  split_ifs with h
  · rw [h]
  · rfl

theorem mapValues_set (f : V → W) (m : OrderedMap K V) (key : K) (value : Option V) :
    (m.set key value).mapValues f = (m.mapValues f).set key (value.map f) := by
  refine ext_get fun other ↦ ?_
  rw [get_mapValues, get_set, get_set, get_mapValues]
  split_ifs <;> rfl

theorem mapValues_retain (f : V → W) (m : OrderedMap K V) (keep : K → Bool) :
    (m.retain keep).mapValues f = (m.mapValues f).retain keep := by
  refine ext_get fun key ↦ ?_
  rw [get_mapValues, get_retain, get_retain, get_mapValues]
  split_ifs <;> rfl

theorem retain_insert (keep : K → Bool) (key : K) (value : V) : (m.insert key value).retain keep =
      if keep key then (m.retain keep).insert key value else m.retain keep := by
  refine ext_get fun other ↦ ?_
  by_cases hkey : other = key <;> by_cases hkeep : keep key = true <;>
    simp [get_retain, get_insert, hkey, hkeep]

theorem retain_remove (keep : K → Bool) (key : K) :
    (m.remove key).retain keep = (m.retain keep).remove key := by
  refine ext_get fun other ↦ ?_
  rw [get_retain, get_remove, get_remove, get_retain]
  split_ifs <;> rfl

/-! ### Insertions one after another -/

theorem get_insertAll (rows : List (K × V)) (key : K) :
    (m.insertAll rows).get key = ((ofList rows).get key).or (m.get key) := by
  induction rows generalizing m with
  | nil => rfl
  | cons row rows ih =>
    change ((m.insert row.1 row.2).insertAll rows).get key =
      (((∅ : OrderedMap K V).insert row.1 row.2 |>.insertAll rows).get key).or (m.get key)
    rw [ih, ih, Option.or_assoc, get_insert, get_insert]
    split_ifs <;> rfl

theorem get_ofList_cons (row : K × V) (rows : List (K × V)) (key : K) :
    (ofList (row :: rows)).get key =
      ((ofList rows).get key).or (if key = row.1 then some row.2 else none) := by
  change ((∅ : OrderedMap K V).insert row.1 row.2 |>.insertAll rows).get key = _
  rw [get_insertAll, get_insert]
  rfl

theorem mem_of_get_ofList (h : (ofList rows).get key = some value) : (key, value) ∈ rows := by
  induction rows with
  | nil => cases h
  | cons row rows ih =>
    rw [get_ofList_cons, Option.or_eq_some_iff] at h
    rcases h with h | ⟨-, h⟩
    · exact mem_cons_of_mem _ (ih h)
    · split_ifs at h with hkey
      cases h
      rw [hkey]
      exact mem_cons_self

/-- A map is what its rows give. -/
theorem ofList_rows : ofList m.rows = m := by
  have hget : ∀ rows : List (K × V), rows.Pairwise (fun row other ↦ row.1 < other.1) →
      ∀ row ∈ rows, (ofList rows).get row.1 = some row.2 := by
    intro rows hsort
    induction hsort with
    | nil => exact nofun
    | @cons first rows hpre _ ih =>
      intro row hrow
      rw [get_ofList_cons]
      rcases mem_cons.mp hrow with rfl | hrow
      · -- no later row stands under the key of the first
        have hnone : (ofList rows).get row.1 = none := by
          by_contra hsome
          obtain ⟨value, hvalue⟩ := Option.ne_none_iff_exists'.mp hsome
          exact (hpre _ (mem_of_get_ofList hvalue)).false
        rw [hnone, if_pos rfl, Option.none_or]
      · rw [ih row hrow, Option.some_or]
  refine ext_get fun key ↦ Option.ext fun value ↦ ?_
  rw [get_eq_some_iff m]
  exact ⟨mem_of_get_ofList, fun hrow ↦ hget m.rows m.sorted _ hrow⟩

theorem insertAll_ofList (rows : List (K × V)) :
    m.insertAll (ofList rows).rows = m.insertAll rows := by
  refine ext_get fun key ↦ ?_
  rw [get_insertAll, ofList_rows, get_insertAll]

theorem mapValues_insertAll (f : V → W) (m : OrderedMap K V) (rows : List (K × V)) :
    (m.insertAll rows).mapValues f =
      (m.mapValues f).insertAll (rows.map fun row ↦ (row.1, f row.2)) := by
  induction rows generalizing m with
  | nil => rfl
  | cons row rows ih =>
    refine (ih (m.insert ..)).trans ?_
    have hrow : (m.insert row.1 row.2).mapValues f = (m.mapValues f).insert row.1 (f row.2) :=
      mapValues_set f m row.1 (some row.2)
    rw [hrow]
    rfl

/-! ### The rows in any order -/

theorem rows_insert_perm (key : K) (value : V) :
    (m.insert key value).rows.Perm ((key, value) :: (m.remove key).rows) := by
  have hbelow : (m.remove key).rows.filter (·.1 < key) = m.rows.filter (·.1 < key) := by
    refine (filter_filter ..).trans (filter_congr fun row _ ↦ ?_)
    simpa using LT.lt.ne
  have habove : (m.remove key).rows.filter (fun row ↦ !decide (row.1 < key)) =
      m.rows.filter (key < ·.1) := by
    refine (filter_filter ..).trans (filter_congr fun row _ ↦ ?_)
    rw [Bool.eq_iff_iff, Bool.and_eq_true, Bool.not_eq_true', decide_eq_false_iff_not, not_lt,
      decide_eq_true_iff, decide_eq_true_iff, lt_iff_le_and_ne, ne_comm]
  refine perm_middle.trans (List.Perm.cons _ ?_)
  rw [← hbelow, ← habove]
  exact filter_append_perm _ _

end

theorem remove_of_get_eq_none (h : m.get key = none) : m.remove key = m := by
  refine ext_get fun other ↦ ?_
  rw [get_remove]
  split_ifs with hkey
  · rw [hkey, h]
  · rfl

theorem rows_perm_of_get (h : m.get key = some value) :
    m.rows.Perm ((key, value) :: (m.remove key).rows) := by
  have hins : m.insert key value = m := by
    refine ext_get fun other ↦ ?_
    rw [get_insert]
    split_ifs with hkey
    · rw [hkey, h]
    · rfl
  have hperm := rows_insert_perm m key value
  rwa [hins] at hperm

/-! ### Weights -/

theorem total_insert (weight : V → ℕ) (m : OrderedMap K V) (key : K) (value : V) :
    (m.insert key value).total weight = weight value + (m.remove key).total weight := by
  rw [total, ((rows_insert_perm ..).map fun row ↦ weight row.2).sum_nat]
  rfl

theorem total_of_get (weight : V → ℕ) (h : m.get key = some value) :
    m.total weight = weight value + (m.remove key).total weight := by
  rw [total, ((rows_perm_of_get m h).map fun row ↦ weight row.2).sum_nat]
  rfl

/-- Assumes: no more weight under the key before. The insertion lowers no total. -/
theorem total_le_insert {weight : V → ℕ}
    (h : ∀ old, m.get key = some old → weight old ≤ weight value) :
    m.total weight ≤ (m.insert key value).total weight := by
  rw [total_insert]
  cases hget : m.get key with
  | none =>
    rw [remove_of_get_eq_none m hget]
    exact Nat.le_add_left _ _
  | some old =>
    rw [total_of_get m weight hget]
    exact Nat.add_le_add_right (h old hget) _

section

variable (weight : V → ℕ) (keep : K → Bool) (m : OrderedMap K V)

theorem total_retain_le : (m.retain keep).total weight ≤ m.total weight := by
  have hsplit := ((filter_append_perm (keep ·.1) m.rows).map fun row ↦ weight row.2).sum_nat
  rw [map_append, sum_append] at hsplit
  exact Nat.le.intro hsplit

theorem total_insert_le (key : K) (value : V) :
    (m.insert key value).total weight ≤ weight value + m.total weight := by
  rw [total_insert]
  exact Nat.add_le_add_left (total_retain_le ..) _

theorem total_insertAll_le (rows : List (K × V)) :
    (m.insertAll rows).total weight ≤ m.total weight + (rows.map fun row ↦ weight row.2).sum := by
  induction rows generalizing m with
  | nil => exact Nat.le_refl _
  | cons row rows ih =>
    have hins := total_insert_le weight m row.1 row.2
    have hrest := ih (m.insert row.1 row.2)
    rw [map_cons, sum_cons]
    exact hrest.trans (by omega)

/-! ### The number of rows -/

theorem length_insert (key : K) (value : V) :
    (m.insert key value).rows.length = (m.remove key).rows.length + 1 :=
  (rows_insert_perm ..).length_eq

end

theorem length_of_get (h : m.get key = some value) :
    m.rows.length = (m.remove key).rows.length + 1 := (rows_perm_of_get m h).length_eq

section

variable (m : OrderedMap K V)

theorem length_insert_le (key : K) (value : V) :
    (m.insert key value).rows.length ≤ m.rows.length + 1 := by
  rw [length_insert]
  exact Nat.succ_le_succ (length_filter_le _ _)

theorem length_insertAll_le (rows : List (K × V)) :
    (m.insertAll rows).rows.length ≤ m.rows.length + rows.length := by
  induction rows generalizing m with
  | nil => exact Nat.le_refl _
  | cons row rows ih =>
    have hins := length_insert_le m row.1 row.2
    have hrest := ih (m.insert row.1 row.2)
    rw [length_cons]
    exact hrest.trans (by omega)

theorem length_remove_le (key : K) : (m.remove key).rows.length ≤ m.rows.length :=
  length_filter_le _ _

theorem length_remove_lt (h : (m.get key).isSome) : (m.remove key).rows.length < m.rows.length := by
  obtain ⟨value, hget⟩ := Option.isSome_iff_exists.mp h
  refine length_filter_lt_length_iff_exists.mpr ?_
  exact ⟨(key, value), (get_eq_some_iff m).mp hget, by simp⟩

end

/-! ### Scans -/

theorem mem_scan_iff {row : K × V} : row ∈ m.scan p ↔ p row.1 ∧ m.get row.1 = some row.2 := by
  rw [get_eq_some_iff, scan, mem_filter, and_comm]

theorem sorted_scan (p : K → Bool) (m : OrderedMap K V) :
    (m.scan p).Pairwise fun row other ↦ row.1 < other.1 := m.sorted.filter _

/-- Rows in ascending order that hold what the scan holds are the scan. -/
theorem scan_eq_of_mem_iff (hsort : rows.Pairwise fun row other ↦ row.1 < other.1)
    (hmem : ∀ row, row ∈ rows ↔ p row.1 ∧ m.get row.1 = some row.2) : m.scan p = rows :=
  (sorted_scan p m).eq_of_mem_iff hsort fun row ↦ (mem_scan_iff m).trans (hmem row).symm

theorem scan_insert_of_not (hp : p key = false) : (m.insert key value).scan p = m.scan p := by
  refine scan_eq_of_mem_iff _ (sorted_scan p m) fun row ↦ ?_
  rw [mem_scan_iff, get_insert]
  refine and_congr_right fun hrow ↦ ?_
  rw [if_neg]
  rintro rfl
  exact Bool.false_ne_true (hp.symm.trans hrow)

theorem scan_insert_last (hp : p key) (hlast : ∀ row ∈ m.scan p, row.1 < key) :
    (m.insert key value).scan p = m.scan p ++ [(key, value)] := by
  refine scan_eq_of_mem_iff _ ?_ fun row ↦ ?_
  · rw [pairwise_append]
    refine ⟨sorted_scan p m, pairwise_singleton _ _, ?_⟩
    intro row hrow other hother
    rw [mem_singleton.mp hother]
    exact hlast row hrow
  · rw [mem_append, mem_singleton, get_insert, Prod.ext_iff]
    by_cases hkey : row.1 = key
    · have hnot : row ∉ m.scan p := fun hrow ↦ (hlast row hrow).ne hkey
      simp [hnot, hkey, hp, eq_comm]
    · simp [mem_scan_iff, hkey]

end OrderedMap

end HydraCache.Lib
