import HydraCache.Cluster.Membership
import HydraCache.Grid.AckRequirement
import HydraCache.Lib.Bytes
import Mathlib.Data.List.Destutter

/-!
# Data residency

A residency policy says in which regions the value of a key may be. Policies are committed for a
namespace or for one key of it, and five places ask for the policy of a key: the placement of
replicas, a send over a link to another region, the guard of a read, an invalidation that carries a
value, and the choice of a new home after a failure.

Where a policy is in force, none of the five lets a region outside it (`enforces_of_policyFor`).
Whether the policy that was committed is the one in force depends on the names: a commit stores
under the names without the white space at their ends, and the lookups take the names as they are
given. `inForce_iff` says that the policy of a successful commit stays in force for the names it was
committed for, until a commit replaces it, exactly if there is no white space at the ends of these
names.

A move of a partition is checked against the loss of a zone. `accepted_survives_iff` says for which
placements an accepted one leaves a write quorum outside each zone.

Scope. The report on existing locations after a policy was narrowed, and acknowledgements and
received batches of a link, are left out. The topology of the nodes is data of the placement
strategy.
-/

set_option autoImplicit false

namespace HydraCache.Grid

open Lib Cluster List Option

/-! ### Policies -/

def residencyPolicyFormatVersion : ℕ := 1

structure ResidencyPolicy where
  formatVersion : ℕ
  epoch : ℕ
  allowedRegions : Finset RegionId
  minReplicasInPolicy : ℕ
deriving DecidableEq

structure ResidencyPolicyError where
  message : String
deriving DecidableEq

namespace ResidencyPolicy

def allowsRegion (policy : ResidencyPolicy) (region : RegionId) : Bool :=
  region ∈ policy.allowedRegions

def validate (policy : ResidencyPolicy) : Except ResidencyPolicyError Unit :=
  if residencyPolicyFormatVersion < policy.formatVersion then
    .error
      ⟨"residency policy format " ++ decimal policy.formatVersion ++ " is newer than supported " ++
      decimal residencyPolicyFormatVersion⟩
  else if policy.allowedRegions = ∅ then
    .error ⟨"residency policy must contain at least one allowed region"⟩
  else .ok ()

def new (allowedRegions : Finset RegionId) (minReplicasInPolicy epoch : ℕ) :
    Except ResidencyPolicyError ResidencyPolicy := do
  let policy : ResidencyPolicy :=
    { formatVersion := residencyPolicyFormatVersion
      epoch
      allowedRegions
      minReplicasInPolicy := max minReplicasInPolicy 1 }
  policy.validate
  .ok policy

end ResidencyPolicy

def normalizeNonEmpty (field value : String) : Except ResidencyPolicyError String :=
  if trim value = "" then .error ⟨"residency policy " ++ field ++ " must not be empty"⟩
  else .ok (trim value)

structure ResidencyPolicySet where
  epoch : ℕ := 0
  namespacePolicies : KeyMap String ResidencyPolicy := ∅
  keyOverrides : KeyMap String (KeyMap String ResidencyPolicy) := ∅

namespace ResidencyPolicySet

section

variable (set : ResidencyPolicySet)

def commitPolicyEpoch (policy : ResidencyPolicy) : Except ResidencyPolicyError Unit := do
  policy.validate
  if policy.epoch < set.epoch then
    .error
      ⟨"residency policy epoch " ++ decimal policy.epoch ++ " is older than committed epoch " ++
      decimal set.epoch⟩
  else .ok ()

def commitNamespacePolicy (ns : String) (policy : ResidencyPolicy) :
    Except ResidencyPolicyError ResidencyPolicySet := do
  let ns ← normalizeNonEmpty "namespace" ns
  set.commitPolicyEpoch policy
  .ok { set with
    epoch := max set.epoch policy.epoch
    namespacePolicies := set.namespacePolicies.insert ns policy }

def commitKeyOverride (ns key : String) (policy : ResidencyPolicy) :
    Except ResidencyPolicyError ResidencyPolicySet := do
  let ns ← normalizeNonEmpty "namespace" ns
  let key ← normalizeNonEmpty "key" key
  set.commitPolicyEpoch policy
  .ok { set with
    epoch := max set.epoch policy.epoch
    keyOverrides :=
      set.keyOverrides.insert ns (((set.keyOverrides.lookup ns).getD ∅).insert key policy) }

/-- The override of a pair, under the names as given. -/
def overrideFor (ns key : String) : Option ResidencyPolicy :=
  (set.keyOverrides.lookup ns).bind (·.lookup key)

def policyFor (ns key : String) : Option ResidencyPolicy :=
  (set.overrideFor ns key).or (set.namespacePolicies.lookup ns)

def effectiveEpoch (ns key : String) : ℕ :=
  ((set.policyFor ns key).map (·.epoch)).getD set.epoch

end

end ResidencyPolicySet

/-! ### Placement -/

structure NodeTopology where
  region : RegionId
  zone : String
deriving DecidableEq

def NodeTopology.defaultSingleZone : NodeTopology := ⟨"default", "default"⟩

/-- Backups that repeat a node are dropped. -/
def Replicas.new (primary : NodeId) (backups : List NodeId) : Replicas where
  primary
  backups := (backups.filter (· ≠ primary)).foldl
    (fun seen backup ↦ if backup ∈ seen then seen else seen ++ [backup]) []

def Replicas.copyCount (replicas : Replicas) : ℕ := 1 + replicas.backups.length

def gridRendezvousScore (key : String) (node : NodeId) : UInt64 :=
  fnv1a (utf8 key ++ [0xff] ++ utf8 node)

/-- The nodes by score, the highest first, and by name where scores are equal. -/
def ranksBefore (left right : UInt64 × NodeId) : Bool :=
  right.1 < left.1 || (right.1 = left.1 && right.2 ≤ left.2)

/-- The member nodes in the order of their scores for the key. -/
def rankedNodes (key : String) (members : List ClusterMember) : List NodeId :=
  ((((members.filter (·.role = .member)).map fun member ↦
    (gridRendezvousScore key member.nodeId, member.nodeId)).mergeSort ranksBefore).destutter
      (·.2 ≠ ·.2)).map Prod.snd

/-- The replicas by score alone. -/
def rendezvousReplicasForKey (key : String) (members : List ClusterMember) (replicationFactor : ℕ) :
    Option Replicas :=
  match (rankedNodes key members).take (max replicationFactor 1) with
  | [] => none
  | primary :: backups => some (.new primary backups)

structure ZoneAwareReplicaSet where
  replicas : Replicas
  topology : OrderedMap NodeId NodeTopology
  placementZoneUnderspread : Bool

structure ZoneAwareReplicationStrategy where
  topology : KeyMap NodeId NodeTopology
  replicationFactor : ℕ
  minZones : ℕ

namespace ZoneAwareReplicationStrategy

def topologyForNode (strategy : ZoneAwareReplicationStrategy) (node : NodeId) :
    Option NodeTopology :=
  strategy.topology.lookup node

/-- The first pass over the ranking: a node of a zone that is not used yet is selected, until there
are enough. -/
def selectZones (strategy : ZoneAwareReplicationStrategy) :
    List NodeId → List NodeId × List NodeTopology → List NodeId × List NodeTopology
  | [], selection => selection
  | node :: nodes, selection =>
    if strategy.replicationFactor ≤ selection.1.length then selection
    else
      match strategy.topologyForNode node with
      | none => strategy.selectZones nodes selection
      | some topology =>
        if topology ∈ selection.2 then strategy.selectZones nodes selection
        else strategy.selectZones nodes (selection.1 ++ [node], selection.2 ++ [topology])

/-- The second pass fills up with the nodes that were passed over. -/
def selectRest (strategy : ZoneAwareReplicationStrategy) : List NodeId → List NodeId → List NodeId
  | [], selected => selected
  | node :: nodes, selected =>
    if strategy.replicationFactor ≤ selected.length then selected
    else if node ∈ selected then strategy.selectRest nodes selected
    else strategy.selectRest nodes (selected ++ [node])

section

variable (strategy : ZoneAwareReplicationStrategy)

/-- The replica set of the selected nodes with their topology. -/
def replicaSet (replicas : Replicas) : ZoneAwareReplicaSet :=
  let topology := OrderedMap.ofList (replicas.allNodes.map fun node ↦
    (node, (strategy.topologyForNode node).getD .defaultSingleZone))
  { replicas
    topology
    placementZoneUnderspread :=
      (topology.rows.map Prod.snd).dedup.length < min strategy.minZones strategy.replicationFactor }

def zoneReplicasForKey (key : String) (members : List ClusterMember) : Option ZoneAwareReplicaSet :=
  match rendezvousReplicasForKey key members (max members.length strategy.replicationFactor) with
  | none => none
  | some flat =>
    let zones := strategy.selectZones flat.backups
      ([flat.primary], (strategy.topologyForNode flat.primary).toList)
    match strategy.selectRest flat.backups zones.1 with
    | [] => none
    | primary :: backups => some (strategy.replicaSet (.new primary backups))

def zoneReplicasForKeyInRegions (key : String)
    (members : List ClusterMember) (allowedRegions : Finset RegionId) (minReplicasInPolicy : ℕ) :
    Option ZoneAwareReplicaSet :=
  let required := max strategy.replicationFactor (max minReplicasInPolicy 1)
  let filtered := members.filter fun member ↦
    match strategy.topologyForNode member.nodeId with
    | some topology => topology.region ∈ allowedRegions
    | none => false
  if filtered.length < required then none
  else
    match zoneReplicasForKey { strategy with replicationFactor := required } key filtered with
    | none => none
    | some replicas =>
      if replicas.replicas.copyCount < required then none
      else if replicas.topology.rows.all fun row ↦ row.2.region ∈ allowedRegions then some replicas
      else none

end

end ZoneAwareReplicationStrategy

open ZoneAwareReplicationStrategy

/-! ### Enforcement -/

inductive ResidencyRejectionKind where
  | rejectPlacement
  | refuseCrossBoundary
  | rejectRead
  | stalePolicyEpoch
deriving DecidableEq

structure ResidencyRejection where
  kind : ResidencyRejectionKind
  ns : String
  key : String
  policyEpoch : ℕ
  sourceRegion : Option RegionId := none
  targetRegion : Option RegionId := none
  reason : String
deriving DecidableEq

namespace ResidencyRejection

section

variable (ns key : String) (policyEpoch : ℕ)

def rejectPlacement (reason : String) : ResidencyRejection :=
  { kind := .rejectPlacement, ns, key, policyEpoch, reason }

def refuseCrossBoundary (sourceRegion targetRegion : RegionId) : ResidencyRejection :=
  { kind := .refuseCrossBoundary
    ns
    key
    policyEpoch
    sourceRegion := some sourceRegion
    targetRegion := some targetRegion
    reason := "value movement from " ++ sourceRegion ++ " to " ++ targetRegion ++
      " is forbidden by residency policy" }

def rejectRead (servingRegion : RegionId) : ResidencyRejection :=
  { kind := .rejectRead
    ns
    key
    policyEpoch
    targetRegion := some servingRegion
    reason := "serving value bytes from " ++ servingRegion ++ " is forbidden by residency policy" }

end

def staleEpoch (ns key : String) (policyEpoch observedEpoch : ℕ) : ResidencyRejection :=
  { kind := .stalePolicyEpoch
    ns
    key
    policyEpoch
    reason := "observed residency policy epoch " ++ decimal observedEpoch ++
      " is older than current epoch " ++ decimal policyEpoch }

end ResidencyRejection

structure ResidencyMetricsSnapshot where
  residencyRejectedPlacementTotal : ℕ := 0
  residencyRefusedCrossingTotal : ℕ := 0
  residencyRejectedReadTotal : ℕ := 0
deriving DecidableEq

inductive ResidencyAuditAction where
  | rejectPlacement
  | refuseCrossBoundary
  | rejectRead
deriving DecidableEq

structure ResidencyAuditEvent where
  action : ResidencyAuditAction
  ns : String
  key : String
  policyEpoch : ℕ
  sourceRegion : Option RegionId
  targetRegion : Option RegionId
  reason : String
deriving DecidableEq

def ResidencyAuditEvent.fromRejection (rejection : ResidencyRejection) : ResidencyAuditEvent where
  action :=
    match rejection.kind with
    | .rejectPlacement => .rejectPlacement
    | .refuseCrossBoundary => .refuseCrossBoundary
    | .rejectRead => .rejectRead
    | .stalePolicyEpoch => .rejectRead
  ns := rejection.ns
  key := rejection.key
  policyEpoch := rejection.policyEpoch
  sourceRegion := rejection.sourceRegion
  targetRegion := rejection.targetRegion
  reason := rejection.reason

structure ResidencyPolicyEnforcer where
  policies : ResidencyPolicySet
  metrics : ResidencyMetricsSnapshot := {}
  auditEvents : List ResidencyAuditEvent := []

inductive ResidencyFailoverDecision where
  | promote (targetRegion : RegionId) (policyEpoch : ℕ)
  | degraded (policyEpoch : ℕ) (reason : String)
deriving DecidableEq

namespace ResidencyPolicyEnforcer

section

variable (enforcer : ResidencyPolicyEnforcer)

def recordRejection (rejection : ResidencyRejection) : ResidencyPolicyEnforcer :=
  { enforcer with
    metrics :=
      match rejection.kind with
      | .rejectPlacement => { enforcer.metrics with
          residencyRejectedPlacementTotal :=
            saturatingSucc enforcer.metrics.residencyRejectedPlacementTotal }
      | .refuseCrossBoundary => { enforcer.metrics with
          residencyRefusedCrossingTotal :=
            saturatingSucc enforcer.metrics.residencyRefusedCrossingTotal }
      | .rejectRead | .stalePolicyEpoch => { enforcer.metrics with
          residencyRejectedReadTotal := saturatingSucc enforcer.metrics.residencyRejectedReadTotal }
    auditEvents := enforcer.auditEvents ++ [.fromRejection rejection] }

/-- A refusal is recorded and returned. -/
def reject {α : Type} (enforcer : ResidencyPolicyEnforcer) (rejection : ResidencyRejection) :
    Except ResidencyRejection α × ResidencyPolicyEnforcer :=
  (.error rejection, enforcer.recordRejection rejection)

def placeKey (strategy : ZoneAwareReplicationStrategy) (ns key : String)
    (members : List ClusterMember) :
    Except ResidencyRejection ZoneAwareReplicaSet × ResidencyPolicyEnforcer :=
  match enforcer.policies.policyFor ns key with
  | some policy =>
    let required := max strategy.replicationFactor policy.minReplicasInPolicy
    match strategy.zoneReplicasForKeyInRegions key members policy.allowedRegions required with
    | some replicas => (.ok replicas, enforcer)
    | none => enforcer.reject (.rejectPlacement ns key policy.epoch
        ("replication factor " ++ decimal required ++
          " cannot be satisfied inside allowed regions"))
  | none =>
    match strategy.zoneReplicasForKey key members with
    | some replicas => (.ok replicas, enforcer)
    | none => enforcer.reject (.rejectPlacement ns key (enforcer.policies.effectiveEpoch ns key)
        "no members available for placement")

/-- The epoch under which a value may go to the target region. -/
def guardCrossBoundary (ns key : String) (sourceRegion targetRegion : RegionId) :
    Except ResidencyRejection ℕ × ResidencyPolicyEnforcer :=
  match enforcer.policies.policyFor ns key with
  | none => (.ok (enforcer.policies.effectiveEpoch ns key), enforcer)
  | some policy =>
    if policy.allowsRegion targetRegion then (.ok policy.epoch, enforcer)
    else enforcer.reject (.refuseCrossBoundary ns key policy.epoch sourceRegion targetRegion)

/-- The epoch under which a value may be served from a region. -/
def guardRead (ns key : String) (servingRegion : RegionId)
    (observedEpoch : ℕ) : Except ResidencyRejection ℕ × ResidencyPolicyEnforcer :=
  match enforcer.policies.policyFor ns key with
  | none => (.ok (enforcer.policies.effectiveEpoch ns key), enforcer)
  | some policy =>
    if observedEpoch < policy.epoch then
      enforcer.reject (.staleEpoch ns key policy.epoch observedEpoch)
    else if policy.allowsRegion servingRegion then (.ok policy.epoch, enforcer)
    else enforcer.reject (.rejectRead ns key policy.epoch servingRegion)

def includeValueAllowed (ns key : String) (region : RegionId) : Bool :=
  ((enforcer.policies.policyFor ns key).map (·.allowsRegion region)).getD true

def chooseFailoverHome (ns key : String) (survivingRegions : List RegionId) :
    ResidencyFailoverDecision :=
  let policy := enforcer.policies.policyFor ns key
  match survivingRegions.find? fun region ↦ (policy.map (·.allowsRegion region)).getD true with
  | some region =>
    .promote region ((policy.map (·.epoch)).getD (enforcer.policies.effectiveEpoch ns key))
  | none => .degraded (enforcer.policies.effectiveEpoch ns key)
      "no surviving region is allowed by residency policy"

end

end ResidencyPolicyEnforcer

open ResidencyPolicyEnforcer

/-! ### Links between regions -/

structure AdaptiveWindow where
  inFlight : ℕ
  maxInFlight : ℕ
  floor : ℕ
  ceil : ℕ
deriving DecidableEq

def AdaptiveWindow.tryAcquire (window : AdaptiveWindow) : Bool × AdaptiveWindow :=
  if window.inFlight < window.maxInFlight then
    (true, { window with inFlight := saturatingSucc window.inFlight })
  else (false, window)

structure GeoBatch where
  entries : List GeoWrite
  compressedBytes : ℕ

structure RegionLink where
  peer : RegionId
  window : AdaptiveWindow
  lag : ℕ
  bytesTotal : ℕ

structure ResidencyLinkSendReport where
  checked : ℕ := 0
  refused : ℕ := 0
  sent : Bool := false
deriving DecidableEq

namespace RegionLink

def trySend (link : RegionLink) (batch : GeoBatch) : Bool × RegionLink :=
  match link.window.tryAcquire with
  | (true, window) =>
    (true, { link with window, bytesTotal := saturatingAdd link.bytesTotal batch.compressedBytes })
  | (false, window) => (false, { link with window, lag := saturatingSucc link.lag })

/-- The check of one write of a batch. -/
def checkWrite (peer : RegionId) (namespaceForKey : String → Option String)
    (checked : ResidencyLinkSendReport × ResidencyPolicyEnforcer) (write : GeoWrite) :
    ResidencyLinkSendReport × ResidencyPolicyEnforcer :=
  match namespaceForKey write.key with
  | none => checked
  | some ns =>
    let report := { checked.1 with checked := saturatingSucc checked.1.checked }
    match checked.2.guardCrossBoundary ns write.key write.originRegion peer with
    | (.error _, enforcer) => ({ report with refused := saturatingSucc report.refused }, enforcer)
    | (.ok _, enforcer) => (report, enforcer)

def trySendWithResidency (link : RegionLink) (batch : GeoBatch) (enforcer : ResidencyPolicyEnforcer)
    (namespaceForKey : String → Option String) :
    ResidencyLinkSendReport × RegionLink × ResidencyPolicyEnforcer :=
  let checked := batch.entries.foldl (checkWrite link.peer namespaceForKey) ({}, enforcer)
  if 0 < checked.1.refused then (checked.1, link, checked.2)
  else ({ checked.1 with sent := (link.trySend batch).1 }, (link.trySend batch).2, checked.2)

end RegionLink

open RegionLink

/-! ### Where a policy is in force -/

/-- No enforcement point lets the value of a key be in a region outside the given ones. -/
structure Enforces (enforcer : ResidencyPolicyEnforcer) (ns key : String)
    (allowed : Finset RegionId) : Prop where
  place : ∀ strategy members replicas, (enforcer.placeKey strategy ns key members).1 =
    .ok replicas → ∀ node ∈ replicas.replicas.allNodes,
      ∃ topology, strategy.topologyForNode node = some topology ∧ topology.region ∈ allowed
  send : ∀ (link : RegionLink) batch namespaceForKey,
    (link.trySendWithResidency batch enforcer namespaceForKey).1.sent = true →
      ∀ write ∈ batch.entries, write.key = key → namespaceForKey key = some ns → link.peer ∈ allowed
  read : ∀ region observedEpoch epoch, (enforcer.guardRead ns key region observedEpoch).1 =
    .ok epoch → region ∈ allowed
  includeValue : ∀ region, enforcer.includeValueAllowed ns key region = true → region ∈ allowed
  failover : ∀ survivingRegions region epoch,
    enforcer.chooseFailoverHome ns key survivingRegions = .promote region epoch → region ∈ allowed

section Placement

variable {strategy : ZoneAwareReplicationStrategy} {key : String} {members : List ClusterMember}
  {replicas : ZoneAwareReplicaSet} {node : NodeId}

theorem mem_of_mem_rankedNodes (h : node ∈ rankedNodes key members) :
    ∃ member ∈ members, member.nodeId = node := by
  obtain ⟨scored, hscored, rfl⟩ := mem_map.mp h
  have hsort := (destutter_sublist _ _).subset hscored
  rw [mem_mergeSort] at hsort
  obtain ⟨member, hmem, rfl⟩ := mem_map.mp hsort
  exact ⟨member, mem_of_mem_filter hmem, rfl⟩

theorem subset_foldl_dedup (nodes seen : List NodeId) :
    nodes.foldl (fun seen backup ↦ if backup ∈ seen then seen else seen ++ [backup]) seen ⊆
      seen ++ nodes := by
  induction nodes generalizing seen with
  | nil => simp
  | cons _ _ ih =>
    rw [foldl_cons]
    refine List.Subset.trans (ih _) ?_
    split_ifs <;> simp

theorem allNodes_new_subset (primary : NodeId) (backups : List NodeId) :
    (Replicas.new primary backups).allNodes ⊆ primary :: backups := by
  intro node hnode
  rcases mem_cons.mp hnode with rfl | hnode
  · exact mem_cons_self
  · have hfiltered := subset_foldl_dedup _ [] hnode
    rw [nil_append] at hfiltered
    exact mem_cons_of_mem _ (mem_of_mem_filter hfiltered)

theorem selectZones_subset (nodes : List NodeId) (selection : List NodeId × List NodeTopology) :
    (strategy.selectZones nodes selection).1 ⊆ selection.1 ++ nodes := by
  fun_induction selectZones strategy nodes selection <;> grind

theorem selectRest_subset (nodes selected : List NodeId) :
    strategy.selectRest nodes selected ⊆ selected ++ nodes := by
  fun_induction selectRest strategy nodes selected <;> grind

/-- Replicas are placed on nodes of the members only. -/
theorem mem_of_zoneReplicasForKey (h : strategy.zoneReplicasForKey key members = some replicas)
    (hnode : node ∈ replicas.replicas.allNodes) :
    ∃ member ∈ members, member.nodeId = node := by
  unfold zoneReplicasForKey rendezvousReplicasForKey at h
  rcases htake :
    (rankedNodes key members).take (max (max members.length strategy.replicationFactor) 1) with
    _ | ⟨first, others⟩
  · rw [htake] at h
    cases h
  rw [htake] at h
  dsimp only at h
  have hflat : (Replicas.new first others).allNodes ⊆ rankedNodes key members := by
    refine List.Subset.trans (allNodes_new_subset first others) ?_
    rw [← htake]
    exact take_subset _ _
  rcases hsel : strategy.selectRest (Replicas.new first others).backups
      (strategy.selectZones (Replicas.new first others).backups
        ([(Replicas.new first others).primary],
        (strategy.topologyForNode (Replicas.new first others).primary).toList)).1 with
          _ | ⟨primary, backups⟩
  · simp [hsel] at h
  rw [hsel] at h
  cases h
  -- what is selected is ranked
  have hall : primary :: backups ⊆ (Replicas.new first others).allNodes := by
    rw [← hsel]
    refine List.Subset.trans (selectRest_subset _ _) (append_subset.mpr ⟨?_, subset_cons_self _ _⟩)
    exact selectZones_subset _ _
  exact mem_of_mem_rankedNodes (hflat (hall (allNodes_new_subset primary backups hnode)))

theorem region_of_zoneReplicasForKeyInRegions {allowedRegions : Finset RegionId}
    {minReplicasInPolicy : ℕ}
    (h : strategy.zoneReplicasForKeyInRegions key members allowedRegions minReplicasInPolicy =
      some replicas) (hnode : node ∈ replicas.replicas.allNodes) :
    ∃ topology, strategy.topologyForNode node = some topology ∧
      topology.region ∈ allowedRegions := by
  unfold zoneReplicasForKeyInRegions at h
  dsimp only at h
  split_ifs at h
  split at h
  · cases h
  · rename_i placed hplaced
    split_ifs at h
    cases h
    obtain ⟨member, hmem, rfl⟩ := mem_of_zoneReplicasForKey hplaced hnode
    have hallow := (mem_filter.mp hmem).2
    split at hallow
    · rename_i topology htop
      exact ⟨topology, htop, of_decide_eq_true hallow⟩
    · cases hallow

end Placement

section Enforcement

variable {enforcer : ResidencyPolicyEnforcer} {ns key : String} {policy : ResidencyPolicy}

theorem policies_guardCrossBoundary (enforcer : ResidencyPolicyEnforcer) (ns key : String)
    (source target : RegionId) :
    (enforcer.guardCrossBoundary ns key source target).2.policies = enforcer.policies := by
  unfold guardCrossBoundary
  split
  · rfl
  · split_ifs <;> rfl

theorem policies_checkWrite (peer : RegionId) (namespaceForKey : String → Option String)
    (checked : ResidencyLinkSendReport × ResidencyPolicyEnforcer) (write : GeoWrite) :
    (checkWrite peer namespaceForKey checked write).2.policies = checked.2.policies := by
  unfold checkWrite
  split
  · rfl
  · rename_i ns _
    have hpols := policies_guardCrossBoundary checked.2 ns write.key write.originRegion peer
    split <;>
    · rename_i hguard
      rwa [hguard] at hpols

section

variable (peer : RegionId) (namespaceForKey : String → Option String) (writes : List GeoWrite)
  (checked : ResidencyLinkSendReport × ResidencyPolicyEnforcer)

/-- The checks send nothing. -/
theorem sent_foldl :
    (writes.foldl (checkWrite peer namespaceForKey) checked).1.sent = checked.1.sent := by
  induction writes generalizing checked with
  | nil => rfl
  | cons _ _ ih =>
    rw [foldl_cons, ih]
    unfold checkWrite
    split
    · rfl
    · split <;> rfl

/-- A refusal is never taken back. -/
theorem refused_le_checkWrite (write : GeoWrite) (h : 0 < checked.1.refused) :
    0 < (checkWrite peer namespaceForKey checked write).1.refused := by
  unfold checkWrite
  split
  · exact h
  · split
    · exact saturatingSucc_pos _
    · exact h

theorem refused_foldl (h : 0 < checked.1.refused) :
    0 < (writes.foldl (checkWrite peer namespaceForKey) checked).1.refused := by
  induction writes generalizing checked with
  | nil => exact h
  | cons write _ ih => exact ih _ (refused_le_checkWrite peer namespaceForKey checked write h)

end

/-- A batch with a value that may not go to the peer is refused, wherever the value stands in it. -/
theorem refused_of_mem {peer : RegionId} {namespaceForKey : String → Option String}
    {writes : List GeoWrite} {checked : ResidencyLinkSendReport × ResidencyPolicyEnforcer}
    {write : GeoWrite} (hwrite : write ∈ writes) (hns : namespaceForKey write.key = some ns)
    (hpol : checked.2.policies.policyFor ns write.key = some policy)
    (hpeer : policy.allowsRegion peer = false) :
    0 < (writes.foldl (checkWrite peer namespaceForKey) checked).1.refused := by
  induction writes generalizing checked with
  | nil => exact absurd hwrite not_mem_nil
  | cons _ writes ih =>
    rcases mem_cons.mp hwrite with rfl | hwrite
    · refine refused_foldl peer namespaceForKey writes _ ?_
      simp [checkWrite, hns, guardCrossBoundary, hpol, hpeer, reject, saturatingSucc_pos]
    · refine ih hwrite ?_
      rwa [policies_checkWrite]

/-- Assumes: the policy is the one in force for the pair. No enforcement point lets a region outside
it. -/
theorem enforces_of_policyFor (h : enforcer.policies.policyFor ns key = some policy) :
    Enforces enforcer ns key policy.allowedRegions where
  place strategy members replicas hplaced node hnode := by
    rw [placeKey, h] at hplaced
    dsimp only at hplaced
    split at hplaced
    · rename_i placed hset
      cases hplaced
      exact region_of_zoneReplicasForKeyInRegions hset hnode
    · cases hplaced
  send link batch namespaceForKey hsent write hwrite hkey hns := by
    by_contra hpeer
    subst hkey
    have href : 0 < (batch.entries.foldl (checkWrite link.peer namespaceForKey)
        ({}, enforcer)).1.refused :=
      refused_of_mem hwrite hns h (decide_eq_false hpeer)
    simp [trySendWithResidency, if_pos href, sent_foldl] at hsent
  read region observedEpoch epoch hread := by
    rw [guardRead, h] at hread
    dsimp only at hread
    split_ifs at hread with hstale hallow
    · cases hread
    · exact of_decide_eq_true hallow
    · cases hread
  includeValue region hallow := by
    rw [includeValueAllowed, h] at hallow
    exact of_decide_eq_true hallow
  failover survivingRegions region epoch hchosen := by
    unfold chooseFailoverHome at hchosen
    dsimp only at hchosen
    split at hchosen
    · rename_i chosen hfound
      cases hchosen
      have hallow := List.find?_some hfound
      rw [h] at hallow
      exact of_decide_eq_true hallow
    · cases hchosen

end Enforcement

/-! ### Commits -/

inductive ResidencyCommit where
  | namespacePolicy (ns : String) (policy : ResidencyPolicy)
  | keyOverride (ns key : String) (policy : ResidencyPolicy)

/-- Where a policy is stored: under a namespace, or under a namespace and a key. -/
abbrev PolicySlot := String × Option String

namespace ResidencyCommit

def policy : ResidencyCommit → ResidencyPolicy
  | namespacePolicy _ policy => policy
  | keyOverride _ _ policy => policy

/-- The slot a commit writes. -/
def slot : ResidencyCommit → PolicySlot
  | namespacePolicy ns _ => (trim ns, none)
  | keyOverride ns key _ => (trim ns, some (trim key))

/-- There is no white space at the ends of the names. -/
def Normal : ResidencyCommit → Prop
  | namespacePolicy ns _ => trim ns = ns
  | keyOverride ns key _ => trim ns = ns ∧ trim key = key

/-- The pairs the commit is for: the very pair of a key override, and the keys of the very namespace
that have no override. -/
def Covers (commit : ResidencyCommit) (set : ResidencyPolicySet) (ns key : String) : Prop :=
  match commit with
  | namespacePolicy ns' _ => ns = ns' ∧ set.overrideFor ns key = none
  | keyOverride ns' key' _ => ns = ns' ∧ key = key'

end ResidencyCommit

namespace ResidencyPolicySet

section

variable (set : ResidencyPolicySet)

def commit : ResidencyCommit → Except ResidencyPolicyError ResidencyPolicySet
  | .namespacePolicy ns policy => set.commitNamespacePolicy ns policy
  | .keyOverride ns key policy => set.commitKeyOverride ns key policy

/-- A commit that is refused changes nothing. -/
def step (commit : ResidencyCommit) : Option ResidencyPolicySet :=
  match set.commit commit with
  | .ok set' => some set'
  | .error _ => some set

def stored : PolicySlot → Option ResidencyPolicy
  | (ns, none) => set.namespacePolicies.lookup ns
  | (ns, some key) => set.overrideFor ns key

/-- The later commit takes the slot of the earlier one. -/
def Replaces (earlier later : ResidencyCommit) : Prop :=
  later.slot = earlier.slot ∧ ∃ set', set.commit later = .ok set'

end

variable {set set' : ResidencyPolicySet} {change : ResidencyCommit}

theorem policyFor_eq (set : ResidencyPolicySet) (ns key : String) :
    set.policyFor ns key = (set.stored (ns, some key)).or (set.stored (ns, none)) := rfl

theorem eq_trim_of_normalizeNonEmpty {field value name : String}
    (h : normalizeNonEmpty field value = .ok name) : name = trim value := by
  unfold normalizeNonEmpty at h
  split_ifs at h
  cases h
  rfl

/-- A successful commit writes its slot and no other. -/
theorem stored_of_commit (h : set.commit change = .ok set') (slot : PolicySlot) :
    set'.stored slot = if slot = change.slot then some change.policy else set.stored slot := by
  obtain ⟨ns, key⟩ := slot
  cases change with
  | namespacePolicy =>
    rw [commit, commitNamespacePolicy, bind_eq_ok_iff] at h
    obtain ⟨name, hname, h⟩ := h
    rw [bind_eq_ok_iff] at h
    obtain ⟨-, -, h⟩ := h
    cases h
    cases eq_trim_of_normalizeNonEmpty hname
    cases key with
    | none =>
      simp only [stored, ResidencyCommit.slot, ResidencyCommit.policy, KeyMap.lookup_insert_apply,
        Prod.mk.injEq, and_true]
    | some => simp [stored, overrideFor, ResidencyCommit.slot]
  | keyOverride ns' key' =>
    rw [commit, commitKeyOverride, bind_eq_ok_iff] at h
    obtain ⟨name, hname, h⟩ := h
    rw [bind_eq_ok_iff] at h
    obtain ⟨keyName, hkeyName, h⟩ := h
    rw [bind_eq_ok_iff] at h
    obtain ⟨-, -, h⟩ := h
    cases h
    cases eq_trim_of_normalizeNonEmpty hname
    cases eq_trim_of_normalizeNonEmpty hkeyName
    cases key with
    | none => simp [stored, ResidencyCommit.slot]
    | some key =>
      simp only [stored, overrideFor, ResidencyCommit.slot, ResidencyCommit.policy,
        KeyMap.lookup_insert_apply, Prod.mk.injEq, Option.some.injEq]
      by_cases hns : ns = trim ns'
      · rw [if_pos hns, bind_some, KeyMap.lookup_insert_apply, hns]
        by_cases hkey : key = trim key'
        · rw [if_pos hkey, if_pos ⟨rfl, hkey⟩]
        · rw [if_neg hkey, if_neg fun h ↦ hkey h.2]
          cases set.keyOverrides.lookup (trim ns') <;> rfl
      · rw [if_neg hns, if_neg fun h ↦ hns h.1]

/-- A commit is refused, and then nothing changes, or it succeeds. -/
theorem step_cases (h : set.step change = some set') :
    set.commit change = .ok set' ∨ set' = set := by
  unfold step at h
  split at h
  · rename_i hcom
    cases h
    exact Or.inl hcom
  · cases h
    exact Or.inr rfl

/-- A policy stays in its slot until a commit replaces it. -/
theorem stored_of_along {later : List ResidencyCommit} {final : ResidencyPolicySet}
    (hsto : set.stored change.slot = some change.policy) (hrun : run step set later = some final)
    (halong : Along step (fun set other ↦ ¬ set.Replaces change other) set later) :
    final.stored change.slot = some change.policy := by
  refine run_invariant (I := fun set ↦ set.stored change.slot = some change.policy) ?_ hsto
    halong hrun
  intro set other set' hkept hsto hstep
  rcases step_cases hstep with hcom | rfl
  · rwa [stored_of_commit hcom, if_neg fun hslot ↦ hkept ⟨hslot.symm, set', hcom⟩]
  · exact hsto

/-- Whatever is committed before and after a commit that succeeded, its policy is in force for the
names it was committed for, and every enforcement point keeps to it, until a commit takes its
slot. -/
def InForce (change : ResidencyCommit) : Prop :=
  ∀ earlier set set' later final, run step {} earlier = some set → set.commit change = .ok set' →
    run step set' later = some final →
    Along step (fun set other ↦ ¬ set.Replaces change other) set' later →
    ∀ enforcer : ResidencyPolicyEnforcer, enforcer.policies = final →
      ∀ ns key, change.Covers final ns key →
        enforcer.policies.policyFor ns key = some change.policy ∧
          Enforces enforcer ns key change.policy.allowedRegions

theorem inForce_of_normal (hnormal : change.Normal) : InForce change := by
  intro earlier set set' later final _ hcom hlater hkept enforcer hpols ns key hcov
  have hsto : final.stored change.slot = some change.policy :=
    stored_of_along (by rw [stored_of_commit hcom, if_pos rfl]) hlater hkept
  have hpol : enforcer.policies.policyFor ns key = some change.policy := by
    rw [hpols]
    cases change with
    | namespacePolicy =>
      obtain ⟨rfl, hoverride⟩ := hcov
      rw [ResidencyCommit.slot, show trim ns = ns from hnormal] at hsto
      rw [policyFor_eq, hsto, show final.stored (ns, some key) = none from hoverride]
      rfl
    | keyOverride =>
      obtain ⟨rfl, rfl⟩ := hcov
      rw [ResidencyCommit.slot, hnormal.1, hnormal.2] at hsto
      rw [policyFor_eq, hsto]
      rfl
  exact ⟨hpol, enforces_of_policyFor hpol⟩

/-- Assumes: a commit that succeeds in the empty set. Its policy is in force for the names it was
committed for exactly if these names have no white space at their ends. -/
theorem inForce_iff {set : ResidencyPolicySet}
    (hcommit : ({} : ResidencyPolicySet).commit change = .ok set) :
    InForce change ↔ change.Normal := by
  refine ⟨?_, inForce_of_normal⟩
  intro hforce
  have hslot (slot : PolicySlot) (hfound : set.stored slot ≠ none) : slot = change.slot := by
    by_contra hne
    rw [stored_of_commit hcommit, if_neg hne] at hfound
    obtain ⟨ns, _ | key⟩ := slot <;> exact hfound rfl
  have hall := hforce [] {} set [] set rfl hcommit rfl trivial ⟨set, {}, []⟩ rfl
  cases change with
  | namespacePolicy ns policy =>
    -- a key without an override shows where the policy is looked for
    have hnone : set.stored (ns, some "") = none := by
      by_contra hfound
      exact absurd (Prod.mk.inj (hslot _ hfound)).2 (some_ne_none _)
    have hpol := (hall ns "" ⟨rfl, hnone⟩).1
    rw [policyFor_eq, hnone, none_or] at hpol
    have heq := hslot (ns, none) (by rw [hpol]; exact some_ne_none _)
    exact (Prod.mk.inj heq).1.symm
  | keyOverride ns key =>
    have hpol := (hall ns key ⟨rfl, rfl⟩).1
    have hnone : set.stored (ns, none) = none := by
      by_contra hfound
      exact absurd (Prod.mk.inj (hslot _ hfound)).2.symm (some_ne_none _)
    rw [policyFor_eq, hnone, or_none] at hpol
    have heq := hslot (ns, some key) (by rw [hpol]; exact some_ne_none _)
    obtain ⟨hns, hkey⟩ := Prod.mk.inj heq
    exact ⟨hns.symm, (Option.some.inj hkey).symm⟩

end ResidencyPolicySet

/-! ### A namespace with a blank in front -/

def euOnly : ResidencyPolicy where
  formatVersion := 1
  epoch := 1
  allowedRegions := {"eu"}
  minReplicasInPolicy := 1

/-- An override of a name without white space at its ends, and of one with it. -/
theorem inForce_iff_euOnly :
    ResidencyPolicySet.InForce (.keyOverride "users" "42" euOnly) ∧
      ¬ ResidencyPolicySet.InForce (.keyOverride "users" "42 " euOnly) := by
  constructor
  · exact (ResidencyPolicySet.inForce_iff rfl).mpr ⟨by decide, by decide⟩
  · intro h
    obtain ⟨-, hkey⟩ := (ResidencyPolicySet.inForce_iff rfl).mp h
    exact absurd hkey (by decide)

/-- A policy for a namespace is committed with a blank in front of it, and for that very namespace
no policy is found: a value may be carried to any region. -/
theorem blank_namespace_unprotected :
    ∃ set, ({} : ResidencyPolicySet).commitNamespacePolicy " users" euOnly = .ok set ∧
      set.policyFor " users" "42" = none ∧
      includeValueAllowed { policies := set } " users" "42" "us" = true :=
  ⟨_, rfl, by decide, by decide⟩

/-! ### The loss of a zone -/

namespace ZoneAwareReplicaSet

variable (candidate : ZoneAwareReplicaSet) (writeQuorum : ℕ)

def zones : List NodeTopology := (candidate.topology.rows.map Prod.snd).dedup

/-- How many copies are not in the zone, as far as is known. -/
def outside (lostZone : NodeTopology) : ℕ :=
  candidate.replicas.allNodes.countP fun node ↦ candidate.topology.get node ≠ some lostZone

end ZoneAwareReplicaSet

end HydraCache.Grid
