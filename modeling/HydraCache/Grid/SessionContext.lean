import HydraCache.Grid.ActiveActive
import HydraCache.Lib.OrderedMap
import Mathlib.Data.List.MinMax

/-!
# The watermark of a session

A session carries, for each partition and region it has touched, the highest stamp it observed or
wrote there. The watermark is capped. A stamp for a key it does not hold, recorded when it is full,
first drops the entry with the least stamp (`coarsenOne`), and nothing is kept of that entry.

`highestSeen_record` says what a recording does to every key: it raises the key recorded, it forgets
the key `evicted` names, and it leaves every other key alone.

Scope. The token around the watermark has a module of its own, `Grid/SessionToken`.
-/

set_option autoImplicit false

namespace HydraCache.Grid

open Lib Option

/-! ### Keys and stamps -/

structure PartitionKey where
  partition : ℕ
  region : RegionId

namespace PartitionKey

def order (key : PartitionKey) : ℕ ×ₗ String := toLex (key.partition, key.region)

theorem order_injective : Function.Injective order := by
  rintro ⟨partition, region⟩ ⟨partition', region'⟩ h
  obtain ⟨rfl, rfl⟩ := Prod.mk.inj (toLex_inj.mp h)
  rfl

instance : LinearOrder PartitionKey := LinearOrder.lift' order order_injective

end PartitionKey

structure VersionStamp where
  version : ℕ := 0
  epoch : ℕ := 0
  hlc : HybridLogicalClock := {}

namespace VersionStamp

def order (stamp : VersionStamp) : ℕ ×ₗ ℕ ×ₗ ℕ ×ₗ ℕ :=
  toLex (stamp.version, toLex (stamp.epoch, toLex (stamp.hlc.wall, stamp.hlc.logical)))

theorem order_injective : Function.Injective order := by
  rintro ⟨version, epoch, ⟨wall, logical⟩⟩ ⟨version', epoch', ⟨wall', logical'⟩⟩ h
  obtain ⟨rfl, hepoch⟩ := Prod.mk.inj (toLex_inj.mp h)
  obtain ⟨rfl, hclock⟩ := Prod.mk.inj (toLex_inj.mp hepoch)
  obtain ⟨rfl, rfl⟩ := Prod.mk.inj (toLex_inj.mp hclock)
  rfl

instance : LinearOrder VersionStamp := LinearOrder.lift' order order_injective

end VersionStamp

/-! ### The watermark -/

/-- A cap of zero is taken as one. -/
theorem one_le_cap (cap : ℕ) : 1 ≤ max cap 1 := le_max_right cap 1

theorem length_empty_le_cap (cap : ℕ) :
    (∅ : OrderedMap PartitionKey VersionStamp).rows.length ≤ max cap 1 :=
  Nat.zero_le _

structure SessionWatermark where
  cap : ℕ
  seen : OrderedMap PartitionKey VersionStamp
  coarsenedTotal : ℕ
  positive : 1 ≤ cap
  bounded : seen.rows.length ≤ cap
deriving DecidableEq

namespace SessionWatermark

def new (cap : ℕ) : SessionWatermark where
  cap := max cap 1
  seen := ∅
  coarsenedTotal := 0
  positive := one_le_cap cap
  bounded := length_empty_le_cap cap

section

variable (watermark : SessionWatermark)

def highestSeen (key : PartitionKey) : Option VersionStamp :=
  watermark.seen.get key

/-- The first key of least stamp, in the order of the keys. -/
def leastKey : Option PartitionKey :=
  (watermark.seen.rows.argmin Prod.snd).map Prod.fst

def coarsenOne : SessionWatermark :=
  match watermark.leastKey with
  | some key =>
    { watermark with
      seen := watermark.seen.remove key
      coarsenedTotal := saturatingSucc watermark.coarsenedTotal
      bounded := (watermark.seen.length_remove_le key).trans watermark.bounded }
  | none => watermark

/-- The watermark before a new key is entered. -/
def makeRoom : SessionWatermark :=
  if watermark.cap ≤ watermark.seen.rows.length then watermark.coarsenOne else watermark

end

variable (watermark : SessionWatermark) {key other : PartitionKey} {stamp : VersionStamp}

theorem cap_coarsenOne : watermark.coarsenOne.cap = watermark.cap := by
  unfold coarsenOne
  split <;> rfl

/-- A watermark with entries has a least one. -/
theorem exists_leastKey (h : 0 < watermark.seen.rows.length) :
    ∃ key, watermark.leastKey = some key ∧ (watermark.seen.get key).isSome := by
  have hnonempty : watermark.seen.rows ≠ [] := List.ne_nil_of_length_pos h
  have hsome : watermark.seen.rows.argmin Prod.snd ≠ none :=
    fun h ↦ hnonempty (List.argmin_eq_none.mp h)
  obtain ⟨row, hrow⟩ := ne_none_iff_exists'.mp hsome
  refine ⟨row.1, ?_, ?_⟩
  · rw [leastKey, hrow]
    rfl
  · rw [(watermark.seen.get_eq_some_iff).mpr (List.argmin_mem hrow)]
    rfl

theorem length_makeRoom_lt : watermark.makeRoom.seen.rows.length < watermark.makeRoom.cap := by
  unfold makeRoom
  split_ifs with hfull
  · obtain ⟨key, hkey, hsome⟩ := watermark.exists_leastKey (watermark.positive.trans hfull)
    rw [cap_coarsenOne, coarsenOne, hkey]
    exact (watermark.seen.length_remove_lt hsome).trans_le watermark.bounded
  · exact Nat.lt_of_not_le hfull

section

variable (watermark : SessionWatermark)

section

variable (key : PartitionKey)

def record (stamp : VersionStamp) : SessionWatermark :=
  match watermark.seen.get key with
  | some _ =>
    { watermark with
      seen := watermark.seen.modify key fun existing ↦ if existing < stamp then stamp else existing
      bounded := (List.length_map _).trans_le watermark.bounded }
  | none =>
    { watermark.makeRoom with
      seen := watermark.makeRoom.seen.insert key stamp
      bounded := (watermark.makeRoom.seen.length_insert_le key stamp).trans
        watermark.length_makeRoom_lt }

/-- Observe a stamp from a read. -/
def observe (stamp : VersionStamp) : SessionWatermark := watermark.record key stamp

/-- Record a stamp produced by a write. -/
def recordWrite (stamp : VersionStamp) : SessionWatermark := watermark.record key stamp

/-- The key that recording a stamp under `key` drops. -/
def evicted : Option PartitionKey :=
  if watermark.highestSeen key = none ∧ watermark.cap ≤ watermark.seen.rows.length then
    watermark.leastKey
  else none

end

end

theorem highestSeen_coarsenOne (other : PartitionKey) :
    watermark.coarsenOne.highestSeen other =
      if watermark.leastKey = some other then none else watermark.highestSeen other := by
  unfold coarsenOne
  split
  · next key hkey =>
    change (watermark.seen.remove key).get other = _
    rw [OrderedMap.get_remove, hkey]
    exact if_congr (eq_comm.trans some_inj.symm) rfl rfl
  · next hnone =>
    rw [hnone, if_neg (some_ne_none other).symm]

theorem highestSeen_makeRoom (hnone : watermark.highestSeen key = none) (other : PartitionKey) :
    watermark.makeRoom.highestSeen other =
      if watermark.evicted key = some other then none else watermark.highestSeen other := by
  by_cases hfull : watermark.cap ≤ watermark.seen.rows.length
  · have hevict : watermark.evicted key = watermark.leastKey := if_pos ⟨hnone, hfull⟩
    rw [makeRoom, if_pos hfull, highestSeen_coarsenOne, hevict]
  · have hevict : watermark.evicted key = none := if_neg fun h ↦ hfull h.2
    rw [makeRoom, if_neg hfull, hevict, if_neg (some_ne_none other).symm]

/-- What a recording does to the floor of every key. -/
theorem highestSeen_record (key other : PartitionKey) (stamp : VersionStamp) :
    (watermark.record key stamp).highestSeen other =
      if other = key then some ((watermark.highestSeen key).elim stamp (max · stamp))
      else if watermark.evicted key = some other then none
      else watermark.highestSeen other := by
  unfold record
  split
  · next existing hold =>
    have hevict : watermark.evicted key = none :=
      if_neg fun h ↦ some_ne_none existing (hold.symm.trans h.1)
    have hmax : (if existing < stamp then stamp else existing) = max existing stamp :=
      (max_def_lt existing stamp).symm
    change (watermark.seen.modify key _).get other = _
    rw [OrderedMap.get_modify, hold, hevict, if_neg (some_ne_none other).symm]
    refine if_congr Iff.rfl ?_ rfl
    rw [map_some, hmax]
    change _ = some ((watermark.seen.get key).elim stamp (max · stamp))
    rw [hold]
    rfl
  · next hnone =>
    change (watermark.makeRoom.seen.insert key stamp).get other = _
    rw [OrderedMap.get_insert]
    refine if_congr Iff.rfl ?_ ?_
    · change _ = some ((watermark.seen.get key).elim stamp (max · stamp))
      rw [hnone]
      rfl
    · exact watermark.highestSeen_makeRoom hnone other

end SessionWatermark

end HydraCache.Grid
