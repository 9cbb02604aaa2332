import Mathlib.Algebra.Order.Ring.Nat
import Mathlib.Data.List.AList

/-!
# Finite maps

The maps of the source are keyed collections whose iteration order nothing here depends on. They
are Mathlib's association lists with distinct keys, at a constant value type (`KeyMap`), with the
operations Mathlib does not have: keeping the entries that satisfy a predicate (`retain`), the
number of entries (`size`), whether there is one (`isEmpty`), a weight summed over the values
(`total`), and an insertion for each row of a list (`insertEach`).
-/

set_option autoImplicit false

namespace HydraCache.Lib

open List Option AList

/-- A finite map from `K` to `V`. -/
abbrev KeyMap (K V : Type*) := AList fun _ : K ↦ V

namespace KeyMap

variable {K V : Type*}

/-- The number of entries. -/
def size (m : KeyMap K V) : ℕ := m.entries.length

/-- The map has no entry. -/
def isEmpty (m : KeyMap K V) : Bool := m.entries.isEmpty

/-- The entries that satisfy `keep`. -/
def retain (keep : K → V → Bool) (m : KeyMap K V) : KeyMap K V where
  entries := m.entries.filter fun entry ↦ keep entry.1 entry.2
  nodupKeys := m.nodupKeys.sublist filter_sublist

/-- The weights of all values together. -/
def total (weight : V → ℕ) (m : KeyMap K V) : ℕ := (m.entries.map fun entry ↦ weight entry.2).sum

@[simp] theorem size_empty : size (∅ : KeyMap K V) = 0 := rfl

theorem size_eq_length_keys (m : KeyMap K V) : size m = m.keys.length := by
  simp [size, AList.keys, List.keys]

variable [DecidableEq K]

theorem lookup_insert_apply (m : KeyMap K V) (key other : K) (value : V) :
    (m.insert key value).lookup other = if other = key then some value else m.lookup other := by
  split_ifs with h
  · rw [h, lookup_insert]
  · rw [lookup_insert_ne h]

theorem lookup_erase_apply (m : KeyMap K V) (key other : K) :
    (m.erase key).lookup other = if other = key then none else m.lookup other := by
  split_ifs with h
  · rw [h, lookup_erase]
  · rw [lookup_erase_ne h]

variable {m : KeyMap K V} {key : K} {other : K}

/-- What is found after an insertion was inserted or was there. -/
theorem of_lookup_insert {value found : V} (h : (m.insert key value).lookup other = some found) :
    other = key ∧ value = found ∨ m.lookup other = some found := by
  rw [lookup_insert_apply] at h
  split_ifs at h with hkey
  · exact .inl ⟨hkey, Option.some.inj h⟩
  · exact .inr h

theorem of_lookup_erase {found : V} (h : (m.erase key).lookup other = some found) :
    other ≠ key ∧ m.lookup other = some found := by
  rw [lookup_erase_apply] at h
  split_ifs at h with hkey
  exact ⟨hkey, h⟩

theorem lookup_eq_none_of_isEmpty (h : isEmpty m = true) (key : K) : m.lookup key = none := by
  have hents : m.entries = [] := isEmpty_iff.mp h
  simp [AList.lookup, hents]

theorem isEmpty_of_lookup (h : ∀ key, m.lookup key = none) : isEmpty m = true := by
  refine isEmpty_iff.mpr (eq_nil_iff_forall_not_mem.mpr fun entry hentry ↦ ?_)
  cases (h entry.1).symm.trans (mem_lookup_iff.mpr hentry)

theorem lookup_retain (keep : K → V → Bool) (m : KeyMap K V) (key : K) :
    (retain keep m).lookup key = (m.lookup key).filter (keep key) := by
  apply Option.ext
  intro value
  rw [← mem_def, ← mem_def, mem_lookup_iff, mem_def, filter_eq_some_iff, ← mem_def, mem_lookup_iff]
  simp only [retain, mem_filter]

section

variable (weight : V → ℕ)

theorem total_insert (m : KeyMap K V) (key : K) (value : V) :
    total weight (m.insert key value) = weight value + total weight (m.erase key) := by
  have herased : (m.erase key).entries = m.entries.kerase key := rfl
  simp [total, entries_insert, herased]

/-- The weight under one key, and the rest. -/
theorem total_eq_add_erase (m : KeyMap K V) (key : K) :
    total weight m = ((m.lookup key).map weight).getD 0 + total weight (m.erase key) := by
  by_cases hkey : key ∈ m
  · obtain ⟨value, front, back, hfront, hents, herased⟩ :=
      exists_of_kerase (mem_keys.mp hkey)
    have hlook : m.lookup key = some value := by
      rw [← mem_def, mem_lookup_iff, hents]
      simp
    have hrest : (m.erase key).entries = front ++ back := herased
    rw [hlook]
    simp only [total, hents, hrest, map_append, map_cons, sum_append, sum_cons, map_some, getD_some]
    omega
  · have herased : (m.erase key).entries = m.entries :=
      kerase_of_notMem_keys fun h ↦ hkey (mem_keys.mpr h)
    rw [lookup_eq_none.mpr hkey, total, total, herased]
    simp

theorem erase_of_lookup_eq_none (h : m.lookup key = none) : m.erase key = m := by
  apply AList.ext
  exact kerase_of_notMem_keys fun hkey ↦ lookup_eq_none.mp h (mem_keys.mpr hkey)

/-- Maps that hold the same values weigh the same. -/
theorem total_congr {other : KeyMap K V}
    (h : ∀ key, m.lookup key = other.lookup key) : total weight m = total weight other := by
  have hperm : m.entries.Perm other.entries := by
    refine lookup_ext m.nodupKeys other.nodupKeys fun key value ↦ ?_
    have hlook : m.entries.dlookup key = other.entries.dlookup key := h key
    rw [hlook]
  exact (hperm.map _).sum_nat

/-- A map with no value weighs nothing. -/
theorem total_eq_zero_of_lookup (h : ∀ key, m.lookup key = none) : total weight m = 0 := by
  have hempty : ∀ key, m.lookup key = (∅ : KeyMap K V).lookup key := h
  exact total_congr weight hempty

end

section InsertEach

variable {ι : Type*} (key : ι → K) (value : ι → Option V → V) {rows : List ι}

/-- Insert a value for each row, which may depend on the one its key has. -/
def insertEach (m : KeyMap K V) (rows : List ι) : KeyMap K V :=
  rows.foldl (fun m row ↦ m.insert (key row) (value row (m.lookup (key row)))) m

theorem lookup_insertEach_of_notMem (h : other ∉ rows.map key)
    (m : KeyMap K V) : (insertEach key value m rows).lookup other = m.lookup other := by
  induction rows generalizing m with
  | nil => rfl
  | cons row rows ih =>
    rw [map_cons, mem_cons, not_or] at h
    exact (ih h.2 _).trans (lookup_insert_ne h.1)

/-- Assumes: rows of distinct keys. -/
theorem lookup_insertEach_of_mem (hkeys : (rows.map key).Nodup) {row : ι} (h : row ∈ rows)
    (m : KeyMap K V) :
    (insertEach key value m rows).lookup (key row) = some (value row (m.lookup (key row))) := by
  induction rows generalizing m with
  | nil => cases h
  | cons first rows ih =>
    obtain ⟨hfirst, hrest⟩ := nodup_cons.mp hkeys
    rcases mem_cons.mp h with rfl | hrow
    · exact (lookup_insertEach_of_notMem key value hfirst _).trans (lookup_insert _)
    · have hne : key row ≠ key first := fun heq ↦ hfirst (heq ▸ mem_map_of_mem hrow)
      refine (ih hrest hrow _).trans ?_
      rw [lookup_insert_ne hne]

end InsertEach

theorem size_insert_of_mem (h : key ∈ m) (value : V) : size (m.insert key value) = size m := by
  have hkeys : key ∈ m.keys := mem_keys.mp h
  rw [size_eq_length_keys, size_eq_length_keys, keys_insert, length_cons, length_erase_of_mem hkeys]
  have hpos : 0 < m.keys.length := length_pos_of_mem hkeys
  omega

theorem size_erase_le (m : KeyMap K V) (key : K) : size (m.erase key) ≤ size m := by
  rw [size_eq_length_keys, size_eq_length_keys, keys_erase]
  exact length_erase_le

theorem size_erase_of_mem (h : key ∈ m) : size (m.erase key) + 1 = size m := by
  rw [size_eq_length_keys, size_eq_length_keys, keys_erase, length_erase_add_one (mem_keys.mp h)]

theorem size_insert_le (m : KeyMap K V) (key : K) (value : V) :
    size (m.insert key value) ≤ size m + 1 := by
  rw [size_eq_length_keys, size_eq_length_keys, keys_insert, length_cons]
  exact Nat.succ_le_succ length_erase_le

end KeyMap

end HydraCache.Lib
