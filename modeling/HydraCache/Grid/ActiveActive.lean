import HydraCache.Grid.Record
import Mathlib.Data.String.Basic

/-!
# Active-active regions

In active-active mode every region accepts writes of its own. It stamps a write with the next
version of the region, the authority epoch and a hybrid logical clock, applies it at once, and
queues it for the other regions. A region that receives a write keeps the better of that one and the
one it holds for the key, by (version, epoch) and then by clock, region and node
(`chooseHlcTiebreak`). The clock of a region only moves forward
(`HybridLogicalClock.returned_increase`).

`System` is a number of such regions with a network between them: a write that a region has drained
from its queue can be delivered to any region at any time, in any order and any number of times.
What the regions end with is in `HydraCache.Grid.RegionConvergence`.

Scope. A merge policy of the caller is asked only about a key for which the region holds nothing.
-/

set_option autoImplicit false

namespace HydraCache.Grid

open Lib

abbrev RegionId := String

abbrev ClusterNodeId := String

/-! ### Configuration -/

/-- Which regions accept writes. -/
inductive WriteAuthority where
  | homeRegionOnly (home : RegionId)
  | activeActive (home : RegionId)
deriving DecidableEq

namespace WriteAuthority

def home : WriteAuthority → RegionId
  | .homeRegionOnly home | .activeActive home => home

def acceptsLocalWritesIn (authority : WriteAuthority) (region : RegionId) : Bool :=
  match authority with
  | .homeRegionOnly home => decide (home = region)
  | .activeActive _ => true

def isActiveActive : WriteAuthority → Bool
  | .homeRegionOnly _ => false
  | .activeActive _ => true

end WriteAuthority

inductive ActiveActiveAcknowledgement where
  | missing
  | boundedStalenessAccepted
deriving DecidableEq

structure ActiveActiveConfigError where
  message : String
deriving DecidableEq

structure ActiveActiveConfig where
  authority : WriteAuthority
  acknowledgement : ActiveActiveAcknowledgement
deriving DecidableEq

namespace ActiveActiveConfig

/-- The mode in which only the home region accepts writes. -/
def homeRegionOnly (home : RegionId) : ActiveActiveConfig where
  authority := .homeRegionOnly home
  acknowledgement := .missing

/-- Active-active mode, for a caller that accepts its weaker contract. -/
def activeActive (home : RegionId) (acknowledgement : ActiveActiveAcknowledgement) :
    Except ActiveActiveConfigError ActiveActiveConfig :=
  if acknowledgement ≠ .boundedStalenessAccepted then
    .error ⟨"active-active requires explicit bounded-staleness acknowledgement"⟩
  else .ok { authority := .activeActive home, acknowledgement }

def activeActiveReady (config : ActiveActiveConfig) : Bool :=
  config.authority.isActiveActive && decide (config.acknowledgement = .boundedStalenessAccepted)

end ActiveActiveConfig

/-! ### Clocks -/

structure HybridLogicalClock where
  wall : ℕ := 0
  logical : ℕ := 0
deriving DecidableEq

namespace HybridLogicalClock

/-- `saturating_add(1)` on the logical part, which has 32 bits. -/
def nextLogical (logical : ℕ) : ℕ := min (logical + 1) maxHalfWord

section

variable (clock : HybridLogicalClock)

/-- The clock after a local event. -/
def tick (observedWall : ℕ) : HybridLogicalClock :=
  if clock.wall < observedWall then { wall := observedWall, logical := 0 }
  else { clock with logical := nextLogical clock.logical }

/-- The clock after a remote timestamp. -/
def observe (remote : HybridLogicalClock) (observedWall : ℕ) : HybridLogicalClock :=
  let maxWall := max (max clock.wall remote.wall) observedWall
  { wall := maxWall
    logical :=
      if maxWall = clock.wall ∧ maxWall = remote.wall then
        nextLogical (max clock.logical remote.logical)
      else if maxWall = clock.wall then nextLogical clock.logical
      else if maxWall = remote.wall then nextLogical remote.logical
      else 0 }

/-! ### Timestamps in order -/

/-- Timestamps are compared by wall and then by logical part. -/
def order : ℕ ×ₗ ℕ := toLex (clock.wall, clock.logical)

inductive Call where
  | tick (observedWall : ℕ)
  | observe (remote : HybridLogicalClock) (observedWall : ℕ)

def Call.remote : Call → Option HybridLogicalClock
  | .tick _ => none
  | .observe remote _ => some remote

def call : Call → HybridLogicalClock
  | .tick observedWall => clock.tick observedWall
  | .observe remote observedWall => clock.observe remote observedWall

end

/-- What the calls return, one after the other. -/
def returned (clock : HybridLogicalClock) : List Call → List HybridLogicalClock
  | [] => []
  | first :: calls => clock.call first :: (clock.call first).returned calls

theorem order_lt_iff {a b : HybridLogicalClock} :
    a.order < b.order ↔ a.wall < b.wall ∨ a.wall = b.wall ∧ a.logical < b.logical :=
  Prod.Lex.toLex_lt_toLex

/-- Assumes: the logical part has not reached its bound. The clock has passed where it was and the
timestamp it observed. -/
theorem order_lt_call {clock : HybridLogicalClock} {first : Call}
    (h : (clock.call first).logical < maxHalfWord) :
    clock.order < (clock.call first).order ∧
      ∀ remote ∈ first.remote, remote.order < (clock.call first).order := by
  cases first with
  | tick =>
    refine ⟨order_lt_iff.mpr ?_, nofun⟩
    simp only [call, tick, nextLogical] at h ⊢
    split_ifs at h ⊢ <;> dsimp only at h ⊢ <;> omega
  | observe =>
    simp only [call, observe, nextLogical, order_lt_iff, Call.remote, Option.mem_some_iff,
      forall_eq']
      at h ⊢
    split_ifs at h ⊢ <;> omega

/-- Assumes: no logical part that is returned reaches its bound of 32 bits. Whatever the walls read,
each timestamp is above all those returned before, above where the clock started, and above the one
it was given to observe. -/
theorem returned_increase (clock : HybridLogicalClock) (calls : List Call)
    (h : ∀ stamp ∈ clock.returned calls, stamp.logical < maxHalfWord) :
    (clock :: clock.returned calls).Pairwise (fun earlier later ↦ earlier.order < later.order) ∧
      List.Forall₂ (fun call stamp ↦ ∀ remote ∈ call.remote, remote.order < stamp.order) calls
        (clock.returned calls) := by
  induction calls generalizing clock with
  | nil => exact ⟨List.pairwise_singleton .., .nil⟩
  | cons first _ ih =>
    obtain ⟨hfirst, hrest⟩ := List.forall_mem_cons.mp h
    obtain ⟨hclock, hremote⟩ := order_lt_call hfirst
    obtain ⟨hsort, hremotes⟩ := ih (clock.call first) hrest
    refine ⟨List.pairwise_cons.mpr ⟨fun stamp hstamp ↦ ?_, hsort⟩, .cons hremote hremotes⟩
    rcases List.mem_cons.mp hstamp with rfl | hlater
    · exact hclock
    · exact hclock.trans ((List.pairwise_cons.mp hsort).1 stamp hlater)

/-- The wall runs back between the calls. -/
theorem returned_increase_backwards :
    (returned {} [.tick 5, .observe ⟨7, 3⟩ 4, .tick 2]) = [⟨5, 0⟩, ⟨7, 4⟩, ⟨7, 5⟩] ∧
      [⟨0, 0⟩, ⟨5, 0⟩, ⟨7, 4⟩, ⟨7, 5⟩].Pairwise (fun earlier later ↦ order earlier < order later) :=
  ⟨rfl, (returned_increase {} [.tick 5, .observe ⟨7, 3⟩ 4, .tick 2] (by decide)).1⟩

end HybridLogicalClock

/-! ### Writes -/

/-- A write as its region stamped it. -/
structure GeoWrite where
  key : Key
  partition : ℕ
  version : ℕ
  epoch : ℕ
  hlc : HybridLogicalClock
  originRegion : RegionId
  originNode : String
  value : SealedBytes
deriving DecidableEq

namespace GeoWrite

def toRecord (write : GeoWrite) : ReplicatedValueRecord :=
  .value write.partition write.version write.epoch write.value

/-- The (version, epoch) of the write. -/
def order (write : GeoWrite) : ℕ ×ₗ ℕ := toLex (write.version, write.epoch)

/-- What decides between writes of one (version, epoch): clock, region and node. -/
def stamp (write : GeoWrite) : (ℕ ×ₗ ℕ) ×ₗ (RegionId ×ₗ String) :=
  toLex (toLex (write.hlc.wall, write.hlc.logical), toLex (write.originRegion, write.originNode))

end GeoWrite

/-- The better of two writes. -/
def chooseHlcTiebreak (left right : GeoWrite) : GeoWrite :=
  match compare left.order right.order with
  | .gt => left
  | .lt => right
  | .eq => if right.stamp ≤ left.stamp then left else right

/-! ### A region -/

structure WriteWatermark where
  partition : ℕ
  version : ℕ
  epoch : ℕ
deriving DecidableEq

structure GeoWriteAck where
  watermark : WriteWatermark
  crossedWan : Bool
  replicationTargets : List RegionId
deriving DecidableEq

structure ActiveActiveState where
  config : ActiveActiveConfig
  localRegion : RegionId
  localNode : String
  partitionCount : ℕ
  epoch : ℕ
  nextVersion : ℕ := 1
  clock : HybridLogicalClock := {}
  peers : List RegionId
  records : KeyMap Key ReplicatedValueRecord := ∅
  writes : KeyMap Key GeoWrite := ∅
  pending : List GeoWrite := []

namespace ActiveActiveState

section

variable (s : ActiveActiveState)

/-- The home region and the peers, but the origin. -/
def replicationTargetsFor (origin : RegionId) : List RegionId :=
  let home := s.config.authority.home
  s.peers.foldl
    (fun targets peer ↦ if peer ≠ origin ∧ peer ∉ targets then targets ++ [peer] else targets)
    (if home ≠ origin then [home] else [])

/-- The write the region stamps next. -/
def localWrite (key : Key) (value : SealedBytes) (observedWall : ℕ) : GeoWrite where
  key
  partition := partitionForKey key s.partitionCount
  version := s.nextVersion
  epoch := s.epoch
  hlc := s.clock.tick observedWall
  originRegion := s.localRegion
  originNode := s.localNode
  value

/-- Apply a write of the region itself, and queue it for the others. -/
def acceptLocalWrite (key : Key) (value : SealedBytes)
    (observedWall : ℕ) : Except ActiveActiveConfigError GeoWriteAck × ActiveActiveState :=
  if !s.config.authority.acceptsLocalWritesIn s.localRegion then
    (.error ⟨"local region is not allowed to accept writes for this authority mode"⟩, s)
  else if s.config.authority.isActiveActive && !s.config.activeActiveReady then
    (.error ⟨"active-active write refused without bounded-staleness acknowledgement"⟩, s)
  else
    let write := s.localWrite key value observedWall
    (.ok
      { watermark := ⟨write.partition, write.version, s.epoch⟩
        crossedWan := false
        replicationTargets := s.replicationTargetsFor write.originRegion },
      { s with
        nextVersion := saturatingSucc s.nextVersion
        clock := write.hlc
        records := s.records.insert key write.toRecord
        writes := s.writes.insert key write
        pending := if s.config.authority.isActiveActive then s.pending ++ [write]
          else s.pending })

/-- Apply a write of another region. -/
def reconcileRemote (write : GeoWrite) (policy : MergePolicy) : ActiveActiveState :=
  let clock := s.clock.observe write.hlc write.hlc.wall
  match s.writes.lookup write.key with
  | some existing =>
    let winner := chooseHlcTiebreak existing write
    { s with
      clock
      records := s.records.insert write.key winner.toRecord
      writes := s.writes.insert write.key winner }
  | none =>
    let incoming := write.toRecord
    let merged := (policy (s.records.lookup write.key) incoming).getD incoming
    { s with
      clock
      records := s.records.insert write.key merged
      writes := s.writes.insert write.key write }

def record (key : Key) : Option ReplicatedValueRecord :=
  s.records.lookup key

/-- Take the queued writes. -/
def drainPending : List GeoWrite × ActiveActiveState :=
  (s.pending, { s with pending := [] })

end

end ActiveActiveState

/-! ### Regions and their network -/

/-- What a region is set up with. -/
structure RegionSetup where
  home : RegionId
  node : String
  partitionCount : ℕ
  epoch : ℕ
  peers : List RegionId

/-- Regions by their id, the writes on the network, and what has happened: the writes accepted, and
those each region has received. -/
structure System where
  regions : RegionId → ActiveActiveState
  network : List GeoWrite := []
  accepted : List GeoWrite := []
  received : RegionId → List GeoWrite := fun _ ↦ []

namespace System

/-- A region in active-active mode that has done nothing yet. -/
def newRegion (setup : RegionSetup) (region : RegionId) : ActiveActiveState where
  config :=
    { authority := .activeActive setup.home, acknowledgement := .boundedStalenessAccepted }
  localRegion := region
  localNode := setup.node
  partitionCount := max setup.partitionCount 1
  epoch := setup.epoch
  peers := setup.peers

def initial (setup : RegionId → RegionSetup) : System where
  regions region := newRegion (setup region) region

inductive Label where
  | accept (region : RegionId) (key : Key) (value : SealedBytes) (observedWall : ℕ)
  | drain (region : RegionId)
  | deliver (region : RegionId) (write : GeoWrite)

/-- One step of the system. A write stays on the network after its delivery. -/
def step (policy : MergePolicy) (s : System) : Label → Option System
  | .accept region key value observedWall =>
    let result := (s.regions region).acceptLocalWrite key value observedWall
    let write := (s.regions region).localWrite key value observedWall
    some { s with
      regions := Function.update s.regions region result.2
      accepted := if result.1.isOk then s.accepted ++ [write] else s.accepted }
  | .drain region =>
    let drained := (s.regions region).drainPending
    some { s with
      regions := Function.update s.regions region drained.2
      network := s.network ++ drained.1 }
  | .deliver region write =>
    if write ∈ s.network then
      some { s with
        regions := Function.update s.regions region
          ((s.regions region).reconcileRemote write policy)
        received := Function.update s.received region (s.received region ++ [write]) }
    else none

end System

end HydraCache.Grid
