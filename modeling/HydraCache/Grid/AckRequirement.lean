import HydraCache.Grid.ActiveActive
import HydraCache.Grid.ConditionalStore
import HydraCache.Lib.Grouping
import Mathlib.Data.Finset.Insert

/-!
# Acknowledgements a consistency level asks for

An operation at a consistency level waits for acknowledgements of the replicas that the placement
map names, pending owners included (`effectiveReplicas`). The level says how many it needs in all,
or how many of each region (`requiredAcks`), and a set of nodes satisfies the requirement when
enough replicas are in it (`isSatisfiable`).

A set that satisfies the requirement of `quorum`, `eachQuorum` or `all` holds more than half of the
replicas (`majority_of_isSatisfiable`): for `eachQuorum`, because a majority in every region is a
majority of all. So two such sets share a replica, whatever the two callers take for their topology
and their local region (`satisfying_acks_intersect`), and so do any two sets for requirements that
`overlapsWith` reports. The levels that a replication configuration stands for forget how large its
quorums are: a majority stays one, and all that is less becomes one replica. So they may not overlap
though the quorums do (`defaults_overlap_iff`).
-/

set_option autoImplicit false

namespace HydraCache.Grid

open Lib

/-! ### Placement -/

/-- Primary and backup owners. -/
structure Replicas where
  primary : ClusterNodeId
  backups : List ClusterNodeId
deriving DecidableEq

def Replicas.allNodes (replicas : Replicas) : List ClusterNodeId :=
  replicas.primary :: replicas.backups

structure EffectiveReplicationMap where
  natural : Replicas
  reading : List ClusterNodeId
  pending : Option Replicas

/-- Every owner once, in the order of its first mention. -/
def effectiveReplicas (map : EffectiveReplicationMap) : List ClusterNodeId :=
  (map.natural.allNodes ++ map.reading ++ (map.pending.elim [] Replicas.allNodes)).foldl
    (fun replicas node ↦ if node ∈ replicas then replicas else replicas ++ [node]) []

/-! ### Requirements -/

def quorumFor (replicaCount : ℕ) : ℕ := replicaCount / 2 + 1

structure AckRequirement where
  level : ConsistencyLevel
  replicas : List ClusterNodeId
  totalReplicas : ℕ
  requiredTotal : ℕ
  requiredPerRegion : OrderedMap RegionId ℕ
  replicasByRegion : OrderedMap RegionId (List ClusterNodeId)

/-- A node the topology does not know counts for the caller's own region. -/
def regionOf (topology : OrderedMap ClusterNodeId RegionId) (localRegion : RegionId)
    (node : ClusterNodeId) : RegionId := (topology.get node).getD localRegion

/-- How many acknowledgements in all, and how many of each region. -/
def ConsistencyLevel.requiredCounts (level : ConsistencyLevel) (totalReplicas : ℕ)
    (replicasByRegion : OrderedMap RegionId (List ClusterNodeId)) (localRegion : RegionId) :
    ℕ × OrderedMap RegionId ℕ :=
  match level with
  | .one => (1, ∅)
  | .localQuorum =>
    let localCount := ((replicasByRegion.get localRegion).map List.length).getD 0
    (quorumFor localCount, OrderedMap.empty.insert localRegion (quorumFor localCount))
  | .quorum => (quorumFor totalReplicas, ∅)
  | .eachQuorum =>
    let perRegion := replicasByRegion.mapValues fun nodes ↦ quorumFor nodes.length
    ((perRegion.rows.map Prod.snd).sum, perRegion)
  | .all => (max totalReplicas 1, ∅)

def ConsistencyLevel.requiredAcks (level : ConsistencyLevel) (map : EffectiveReplicationMap)
    (topology : OrderedMap ClusterNodeId RegionId) (localRegion : RegionId) : AckRequirement :=
  let replicas := effectiveReplicas map
  let replicasByRegion := groupBy (regionOf topology localRegion) replicas
  let required := level.requiredCounts replicas.length replicasByRegion localRegion
  { level
    replicas
    totalReplicas := replicas.length
    requiredTotal := required.1
    requiredPerRegion := required.2
    replicasByRegion }

namespace AckRequirement

/-- How many of the nodes are live. -/
def liveCount (liveNodes : Finset ClusterNodeId) (nodes : List ClusterNodeId) : ℕ :=
  nodes.countP (· ∈ liveNodes)

/-- Whether the live nodes can satisfy the requirement. -/
def isSatisfiable (requirement : AckRequirement) (liveNodes : Finset ClusterNodeId) : Bool :=
  if requirement.replicas.isEmpty then false
  else if requirement.requiredPerRegion.rows.isEmpty then
    requirement.requiredTotal ≤ liveCount liveNodes requirement.replicas
  else
    requirement.requiredPerRegion.rows.all fun row ↦
      row.2 ≤ ((requirement.replicasByRegion.get row.1).map (liveCount liveNodes)).getD 0

/-- Whether a read and a write at these requirements overlap across the grid. -/
def overlapsWith (requirement other : AckRequirement) : Bool :=
  requirement.requiredPerRegion.rows.isEmpty && other.requiredPerRegion.rows.isEmpty &&
    decide (requirement.totalReplicas < saturatingAdd requirement.requiredTotal other.requiredTotal)

variable {requirement : AckRequirement} {liveNodes : Finset ClusterNodeId}

theorem requiredTotal_le_of_isSatisfiable (hrows : requirement.requiredPerRegion.rows.isEmpty)
    (h : requirement.isSatisfiable liveNodes) :
    requirement.requiredTotal ≤ liveCount liveNodes requirement.replicas := by
  unfold isSatisfiable at h
  split_ifs at h with hempty
  exact of_decide_eq_true h

theorem required_le_of_isSatisfiable {row : RegionId × ℕ}
    (hrow : row ∈ requirement.requiredPerRegion.rows) (h : requirement.isSatisfiable liveNodes) :
    row.2 ≤ ((requirement.replicasByRegion.get row.1).map (liveCount liveNodes)).getD 0 := by
  have hrows : ¬requirement.requiredPerRegion.rows.isEmpty := by
    rw [List.isEmpty_iff]
    exact List.ne_nil_of_mem hrow
  unfold isSatisfiable at h
  split_ifs at h with hempty
  exact of_decide_eq_true (List.all_eq_true.mp h row hrow)

theorem replicas_ne_nil_of_isSatisfiable (h : requirement.isSatisfiable liveNodes) :
    requirement.replicas ≠ [] := by
  unfold isSatisfiable at h
  split_ifs at h with hempty
  all_goals exact fun hnil ↦ hempty (List.isEmpty_iff.mpr hnil)

end AckRequirement

open AckRequirement

/-! ### Satisfying sets are majorities -/

variable {map : EffectiveReplicationMap} {topology : OrderedMap ClusterNodeId RegionId}
  {localRegion : RegionId} {liveNodes : Finset ClusterNodeId}

theorem lt_two_mul_quorumFor (replicaCount : ℕ) : replicaCount < 2 * quorumFor replicaCount := by
  unfold quorumFor
  omega

/-- A majority in every region. -/
theorem majority_of_region
    (h : (ConsistencyLevel.eachQuorum.requiredAcks map topology localRegion).isSatisfiable
      liveNodes) {row : RegionId × List ClusterNodeId}
    (hrow : row ∈ (groupBy (regionOf topology localRegion) (effectiveReplicas map)).rows) :
    Majority (· ∈ liveNodes) row.2 := by
  have hget := (OrderedMap.get_eq_some_iff _).mpr hrow
  have hmem : (row.1, quorumFor row.2.length) ∈
      (ConsistencyLevel.eachQuorum.requiredAcks map topology localRegion).requiredPerRegion.rows :=
    List.mem_map.mpr ⟨row, hrow, rfl⟩
  have hreq := required_le_of_isSatisfiable hmem h
  change _ ≤ (Option.map _ ((groupBy _ _).get row.1)).getD 0 at hreq
  rw [hget] at hreq
  have hquorum := lt_two_mul_quorumFor row.2.length
  unfold Majority
  change quorumFor row.2.length ≤ row.2.countP _ at hreq
  omega

/-- Assumes: a level that can back a linearizable decision. A set that satisfies what it requires
holds more than half of the replicas. -/
theorem majority_of_isSatisfiable {level : ConsistencyLevel}
    (hlevel : level.allowsSingleKeyLinearizable)
    (h : (level.requiredAcks map topology localRegion).isSatisfiable liveNodes) :
    Majority (· ∈ liveNodes) (effectiveReplicas map) := by
  have hne : effectiveReplicas map ≠ [] := replicas_ne_nil_of_isSatisfiable h
  cases level with
  | one | localQuorum => cases hlevel
  | quorum =>
    have hreq : quorumFor _ ≤ (effectiveReplicas map).countP _ :=
      requiredTotal_le_of_isSatisfiable rfl h
    have hquorum := lt_two_mul_quorumFor (effectiveReplicas map).length
    unfold Majority
    omega
  | eachQuorum =>
    refine (majority_of_parts ?_ fun row hrow ↦ majority_of_region h hrow).perm
      (members_groupBy_perm (regionOf topology localRegion) (effectiveReplicas map))
    exact groupBy_rows_ne_nil hne
  | all =>
    have hreq : max _ 1 ≤ (effectiveReplicas map).countP _ :=
      requiredTotal_le_of_isSatisfiable rfl h
    unfold Majority
    omega

/-- Assumes: requirements of one map that are reported to overlap, and sets that satisfy them. The
sets share a replica. -/
theorem exists_mem_of_overlapsWith {level other : ConsistencyLevel}
    {otherTopology : OrderedMap ClusterNodeId RegionId} {otherRegion : RegionId}
    {otherNodes : Finset ClusterNodeId}
    (hover : (level.requiredAcks map topology localRegion).overlapsWith
      (other.requiredAcks map otherTopology otherRegion))
    (h : (level.requiredAcks map topology localRegion).isSatisfiable liveNodes)
    (hother : (other.requiredAcks map otherTopology otherRegion).isSatisfiable otherNodes) :
    ∃ node ∈ effectiveReplicas map, node ∈ liveNodes ∧ node ∈ otherNodes := by
  rw [overlapsWith, Bool.and_eq_true, Bool.and_eq_true, decide_eq_true_iff] at hover
  obtain ⟨⟨hrows, hotherRows⟩, htotal⟩ := hover
  have hreq := requiredTotal_le_of_isSatisfiable hrows h
  have hotherRequired := requiredTotal_le_of_isSatisfiable hotherRows hother
  have hlt : (effectiveReplicas map).length <
      (effectiveReplicas map).countP (· ∈ liveNodes) + (effectiveReplicas map).countP
        (· ∈ otherNodes) := by
    have hsum := htotal.trans_le (min_le_left _ _)
    exact hsum.trans_le (Nat.add_le_add hreq hotherRequired)
  obtain ⟨node, hnode, hlive, hotherLive⟩ := exists_mem_of_length_lt hlt
  exact ⟨node, hnode, of_decide_eq_true hlive, of_decide_eq_true hotherLive⟩

/-- Any two sets that satisfy `quorum`, `eachQuorum` or `all` for one map share a replica, and so do
any two sets for requirements of one map that are reported to overlap. -/
theorem satisfying_acks_intersect (map : EffectiveReplicationMap)
    (topology otherTopology : OrderedMap ClusterNodeId RegionId)
    (localRegion otherRegion : RegionId) (level other : ConsistencyLevel)
    (acks otherAcks : Finset ClusterNodeId)
    (hacks : (level.requiredAcks map topology localRegion).isSatisfiable acks)
    (hotherAcks : (other.requiredAcks map otherTopology otherRegion).isSatisfiable otherAcks) :
    (level.allowsSingleKeyLinearizable → other.allowsSingleKeyLinearizable →
      ∃ node ∈ effectiveReplicas map, node ∈ acks ∧ node ∈ otherAcks) ∧
    ((level.requiredAcks map topology localRegion).overlapsWith
        (other.requiredAcks map otherTopology otherRegion) →
      ∃ node ∈ effectiveReplicas map, node ∈ acks ∧ node ∈ otherAcks) := by
  refine ⟨fun hlevel hother ↦ ?_, fun hover ↦ exists_mem_of_overlapsWith hover hacks hotherAcks⟩
  obtain ⟨node, hnode, hack, hotherAck⟩ :=
    (majority_of_isSatisfiable hlevel hacks).exists_mem
      (majority_of_isSatisfiable hother hotherAcks)
  exact ⟨node, hnode, of_decide_eq_true hack, of_decide_eq_true hotherAck⟩

/-- Three replicas in two regions, one of them unknown to the topology, and callers in both
regions. -/
theorem satisfying_acks_intersect_two_regions :
    let map : EffectiveReplicationMap :=
      { natural := ⟨"a", ["b"]⟩, reading := ["a", "b"], pending := some ⟨"c", []⟩ }
    let topology : OrderedMap ClusterNodeId RegionId :=
      (OrderedMap.empty.insert "a" "eu").insert "b" "us"
    (ConsistencyLevel.eachQuorum.requiredAcks map topology "eu").isSatisfiable {"a", "b", "c"} ∧
      (ConsistencyLevel.quorum.requiredAcks map topology "us").isSatisfiable {"b", "c"} ∧
      ∃ node ∈ effectiveReplicas map, node ∈ ({"a", "b", "c"} : Finset ClusterNodeId) ∧
        node ∈ ({"b", "c"} : Finset ClusterNodeId) := by
  intro map topology
  have hacks : (ConsistencyLevel.eachQuorum.requiredAcks map topology "eu").isSatisfiable
      {"a", "b", "c"} := by decide +kernel
  have hotherAcks : (ConsistencyLevel.quorum.requiredAcks map topology "us").isSatisfiable
      {"b", "c"} := by decide +kernel
  refine ⟨hacks, hotherAcks, ?_⟩
  exact (satisfying_acks_intersect map topology topology "eu" "us" .eachQuorum .quorum
    {"a", "b", "c"} {"b", "c"} hacks hotherAcks).1 rfl rfl

/-! ### Levels from a replication configuration -/

structure ReplicationConfig where
  replicationFactor : ℕ := 1
  readQuorum : ℕ := 1
  writeQuorum : ℕ := 1
  syncBackups : ℕ := 0
  asyncBackups : ℕ := 0
  maxReplicatedEntryBytes : ℕ := 0
  replicateValues : Bool := false
deriving DecidableEq

inductive ReplicationConfigError where
  | replicationFactorZero
  | quorumZero
  | quorumExceedsReplicationFactor
  | backupCountExceedsReplicationFactor
  | missingReplicatedEntryByteCap
deriving DecidableEq

namespace ReplicationConfig

variable (config : ReplicationConfig)

def validate : Except ReplicationConfigError Unit :=
  if config.replicationFactor = 0 then .error .replicationFactorZero
  else if config.readQuorum = 0 ∨ config.writeQuorum = 0 then .error .quorumZero
  else if config.replicationFactor < config.readQuorum ∨
      config.replicationFactor < config.writeQuorum then .error .quorumExceedsReplicationFactor
  else if config.replicationFactor - 1 < saturatingAdd config.syncBackups config.asyncBackups then
    .error .backupCountExceedsReplicationFactor
  else if config.replicateValues ∧ config.maxReplicatedEntryBytes = 0 then
    .error .missingReplicatedEntryByteCap
  else .ok ()

/-- Whether the read and write quorums overlap. -/
def isStrongRyow : Bool :=
  config.replicationFactor < saturatingAdd config.readQuorum config.writeQuorum

end ReplicationConfig

namespace ConsistencyLevel

def fromLegacyQuorum (required replicationFactor : ℕ) : ConsistencyLevel :=
  if max replicationFactor 1 ≤ max required 1 then .all
  else if max replicationFactor 1 / 2 < max required 1 then .quorum
  else .one

def defaultRead (config : ReplicationConfig) : ConsistencyLevel :=
  fromLegacyQuorum config.readQuorum config.replicationFactor

def defaultWrite (config : ReplicationConfig) : ConsistencyLevel :=
  fromLegacyQuorum config.writeQuorum config.replicationFactor

end ConsistencyLevel

open ConsistencyLevel

/-- A level from a quorum asks for all replicas, a majority of them or one, and for none of a
region. -/
theorem requiredAcks_fromLegacyQuorum (topology : OrderedMap ClusterNodeId RegionId)
    (localRegion : RegionId) (required : ℕ) (h : effectiveReplicas map ≠ []) :
    let requirement :=
  (fromLegacyQuorum required (effectiveReplicas map).length).requiredAcks map topology
      localRegion
    requirement.requiredPerRegion = ∅ ∧ requirement.totalReplicas = (effectiveReplicas map).length ∧
      requirement.requiredTotal =
        if (effectiveReplicas map).length ≤ max required 1 then (effectiveReplicas map).length
        else if (effectiveReplicas map).length / 2 < max required 1 then
          quorumFor (effectiveReplicas map).length
        else 1 := by
  have hpos : max (effectiveReplicas map).length 1 = (effectiveReplicas map).length :=
    Nat.max_eq_left (List.length_pos_iff.mpr h)
  rw [fromLegacyQuorum, hpos]
  split_ifs
  · exact ⟨rfl, rfl, hpos⟩
  · exact ⟨rfl, rfl, rfl⟩
  · exact ⟨rfl, rfl, rfl⟩

/-- Assumes: a valid configuration whose quorums overlap, and a map of as many replicas. The levels
made of the quorums overlap exactly if one quorum is all the replicas or both are more than half of
them. -/
theorem defaults_overlap_iff {config : ReplicationConfig} (hvalid : config.validate = .ok ())
    (hstrong : config.isStrongRyow) (map : EffectiveReplicationMap)
    (hmap : (effectiveReplicas map).length = config.replicationFactor)
    (topology otherTopology : OrderedMap ClusterNodeId RegionId)
    (localRegion otherRegion : RegionId) :
    ((defaultWrite config).requiredAcks map topology localRegion).overlapsWith
        ((defaultRead config).requiredAcks map otherTopology otherRegion) ↔
      max config.readQuorum config.writeQuorum = config.replicationFactor ∨
        config.replicationFactor / 2 < min config.readQuorum config.writeQuorum := by
  unfold ReplicationConfig.validate at hvalid
  split_ifs at hvalid with hfactor hquorum hexceeds hbackups hcap
  obtain ⟨hsum, hword⟩ := lt_min_iff.mp (of_decide_eq_true hstrong)
  have hne : effectiveReplicas map ≠ [] := List.ne_nil_of_length_pos (by omega)
  obtain ⟨hwrite, htotal, hwrit⟩ :=
    requiredAcks_fromLegacyQuorum topology localRegion config.writeQuorum hne
  obtain ⟨hread, -, hreads⟩ :=
    requiredAcks_fromLegacyQuorum otherTopology otherRegion config.readQuorum hne
  rw [hmap] at hwrite htotal hwrit hread hreads
  unfold overlapsWith defaultWrite defaultRead
  rw [hwrite, hread, htotal, hwrit, hreads]
  refine (decide_eq_true_iff.trans (lt_min_iff.trans (and_iff_left hword))).trans ?_
  unfold quorumFor
  split_ifs <;> omega

/-- Of four replicas three acknowledge a write and two answer a read. The levels are a majority and
one, which do not overlap. -/
theorem defaults_without_overlap :
    let config : ReplicationConfig := { replicationFactor := 4, readQuorum := 2, writeQuorum := 3 }
    let map : EffectiveReplicationMap := ⟨⟨"a", ["b", "c", "d"]⟩, [], none⟩
    config.validate = .ok () ∧ config.isStrongRyow ∧ (effectiveReplicas map).length = 4 ∧
      ¬ ((defaultWrite config).requiredAcks map ∅ "eu").overlapsWith
        ((defaultRead config).requiredAcks map ∅ "eu") := by
  intro config map
  exact ⟨rfl, rfl, by decide, by decide +kernel⟩

/-- Two of three replicas for both. -/
theorem defaults_overlap_iff_two_of_three :
    let config : ReplicationConfig := { replicationFactor := 3, readQuorum := 2, writeQuorum := 2 }
    let map : EffectiveReplicationMap := ⟨⟨"a", ["b", "c"]⟩, [], none⟩
    ((defaultWrite config).requiredAcks map ∅ "eu").overlapsWith
      ((defaultRead config).requiredAcks map ∅ "us") :=
  (defaults_overlap_iff rfl rfl ⟨⟨"a", ["b", "c"]⟩, [], none⟩ rfl ∅ ∅ "eu" "us").mpr (by decide)

end HydraCache.Grid
