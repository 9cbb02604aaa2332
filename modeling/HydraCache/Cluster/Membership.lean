import HydraCache.Lib.KeyMap
import HydraCache.Lib.Run
import HydraCache.Lib.Text

/-!
# The membership tables of a cluster

An in-memory cluster holds a table of members, a table of clients and an epoch. A node joins under a
generation, and a join or a leave of an older generation than the one admitted is refused. A member
that joins anew or with a higher generation advances the epoch, and so does a member that leaves;
clients never do.

The generation of a node is the one of its member entry, and of its client entry where it has no
member entry (`currentGeneration`). A node can stand in both tables at once: a member's join takes
it out of the clients, a client's join does not take it out of the members. A leave is checked
against `currentGeneration` and removes both entries (`leave_of_currentGeneration`).

Scope. Endpoints and metadata of a candidate are left out, since every join that reaches the tables
through the metadata log has the default ones. The event history, the topology stamp and the
ownership counters are left out: no operation modelled here reads them.
-/

set_option autoImplicit false

namespace HydraCache.Cluster

open Lib

abbrev NodeId := String

inductive ClusterRole where
  | «local»
  | client
  | member
deriving DecidableEq

inductive CacheError where
  | backend (message : String)
  | decode (message : String)
deriving DecidableEq

def CacheError.text : CacheError → String
  | .backend message => "cache backend error: " ++ message
  | .decode message => "cache decode error: " ++ message

structure ClusterCandidate where
  nodeId : NodeId
  generation : ℕ
  role : ClusterRole
deriving DecidableEq

structure ClusterMember where
  nodeId : NodeId
  generation : ℕ
  role : ClusterRole
  epoch : ℕ
deriving DecidableEq

def ClusterMember.fromCandidate (candidate : ClusterCandidate) (epoch : ℕ) : ClusterMember where
  nodeId := candidate.nodeId
  generation := candidate.generation
  role := candidate.role
  epoch

/-- What a leave publishes. -/
inductive ClusterMembershipEvent where
  | nodeLeft (nodeId : NodeId) (role : ClusterRole) (epoch : ℕ)
deriving DecidableEq

structure InMemoryCluster where
  name : String
  epoch : ℕ := 0
  members : KeyMap NodeId ClusterMember := ∅
  clients : KeyMap NodeId ClusterMember := ∅

namespace InMemoryCluster

def staleGeneration (node : NodeId) (existing attempted : ℕ) : CacheError :=
  .backend ("stale cluster generation for node '" ++ node ++ "': existing " ++ decimal existing ++
    ", attempted " ++ decimal attempted)

section

variable (cluster : InMemoryCluster)

/-- The entry a generation is checked against: the member's, or else the client's. -/
def admitted (node : NodeId) : Option ClusterMember :=
  (cluster.members.lookup node).or (cluster.clients.lookup node)

def currentGeneration (node : NodeId) : Option ℕ :=
  (cluster.admitted node).map ClusterMember.generation

section

variable (candidate : ClusterCandidate)

def rejectStaleGeneration : Except CacheError Unit :=
  match cluster.currentGeneration candidate.nodeId with
  | none => .ok ()
  | some existing =>
    if existing ≤ candidate.generation then .ok ()
    else .error (staleGeneration candidate.nodeId existing candidate.generation)

/-- The tables once a client candidate is admitted. A member entry of the node stays. -/
def connectClient : InMemoryCluster :=
  { cluster with
    clients := cluster.clients.insert candidate.nodeId (.fromCandidate candidate cluster.epoch) }

/-- The epoch once a member candidate is admitted: a new member or a higher generation advances
it. -/
def memberEpoch : ℕ :=
  if (cluster.members.lookup candidate.nodeId).elim true
      fun existing ↦ decide (existing.generation < candidate.generation) then
    saturatingSucc cluster.epoch
  else cluster.epoch

/-- The tables once a member candidate is admitted. A client entry of the node goes. -/
def admitMember : InMemoryCluster :=
  { cluster with
    epoch := cluster.memberEpoch candidate
    clients := cluster.clients.erase candidate.nodeId
    members := cluster.members.insert candidate.nodeId
      (.fromCandidate candidate (cluster.memberEpoch candidate)) }

def join (role : ClusterRole) : Except CacheError (ClusterMember × InMemoryCluster) := do
  let candidate := { candidate with role }
  cluster.rejectStaleGeneration candidate
  match role with
  | .local => .error (.backend "local caches cannot join an in-memory cluster")
  | .client => .ok (.fromCandidate candidate cluster.epoch, cluster.connectClient candidate)
  | .member =>
    .ok (.fromCandidate candidate (cluster.memberEpoch candidate), cluster.admitMember candidate)

def joinMember :=
  cluster.join candidate .member

def joinClient :=
  cluster.join candidate .client

end

def validateGeneration (node : NodeId) (generation : ℕ) : Except CacheError Unit :=
  match cluster.admitted node with
  | none => .error (.backend ("cluster node '" ++ node ++ "' is not admitted"))
  | some existing =>
    if existing.generation = generation then .ok ()
    else .error (staleGeneration node existing.generation generation)

/-- The tables once the node is taken out of both. The epoch advances for a member. -/
def remove (node : NodeId) (removed : ClusterMember) : InMemoryCluster :=
  { cluster with
    epoch := if removed.role = .member then saturatingSucc cluster.epoch else cluster.epoch
    members := cluster.members.erase node
    clients := cluster.clients.erase node }

/-- Take a node out when the generation is the one admitted. -/
def leave (node : NodeId) (generation : ℕ) :
    Except CacheError (Option ClusterMembershipEvent × InMemoryCluster) :=
  match cluster.admitted node with
  | none => .ok (none, cluster)
  | some removed => do
    cluster.validateGeneration node generation
    let left := cluster.remove node removed
    .ok (some (.nodeLeft removed.nodeId removed.role left.epoch), left)

/-- Take over the tables and the epoch of a staged cluster of the same name. -/
def replaceMembershipFrom (staged : InMemoryCluster) : Except CacheError InMemoryCluster :=
  if cluster.name = staged.name then
    .ok { cluster with epoch := staged.epoch, members := staged.members, clients := staged.clients }
  else
    .error (.backend ("staged cluster '" ++ staged.name ++ "' does not match live cluster '" ++
      cluster.name ++ "'"))

end

/-! ### What a join and a leave do -/

variable {cluster next : InMemoryCluster} {candidate : ClusterCandidate} {node : NodeId}
  {generation : ℕ}

theorem admitted_eq_none_iff :
    cluster.admitted node = none ↔
      cluster.members.lookup node = none ∧ cluster.clients.lookup node = none := by
  rw [admitted, Option.or_eq_none_iff]

theorem currentGeneration_eq_some_iff :
    cluster.currentGeneration node = some generation ↔
      ∃ member, cluster.admitted node = some member ∧ member.generation = generation := by
  rw [currentGeneration, Option.map_eq_some_iff]

theorem rejectStaleGeneration_eq_ok_iff :
    cluster.rejectStaleGeneration candidate = .ok () ↔
      ¬ ∃ existing ∈ cluster.currentGeneration candidate.nodeId,
        candidate.generation < existing := by
  unfold rejectStaleGeneration
  cases cluster.currentGeneration candidate.nodeId with
  | none => simp
  | some existing =>
    dsimp only
    split_ifs with h
    · simpa using h
    · simpa using h

theorem rejectStaleGeneration_bind_eq_ok_iff {joined : ClusterMember × InMemoryCluster} :
    (∃ member, (do cluster.rejectStaleGeneration candidate; .ok joined) = .ok (member, next)) ↔
      (¬ ∃ existing ∈ cluster.currentGeneration candidate.nodeId, candidate.generation < existing) ∧
        next = joined.2 := by
  rw [← rejectStaleGeneration_eq_ok_iff]
  constructor
  · rintro ⟨member, h⟩
    obtain ⟨_, hfresh, hjoined⟩ := bind_eq_ok_iff.mp h
    cases hjoined
    exact ⟨hfresh, rfl⟩
  · rintro ⟨hfresh, rfl⟩
    exact ⟨_, bind_eq_ok_iff.mpr ⟨(), hfresh, rfl⟩⟩

theorem leave_of_currentGeneration {removed : ClusterMember}
    (h : cluster.admitted node = some removed) :
    cluster.leave node removed.generation =
      .ok (some (.nodeLeft removed.nodeId removed.role (cluster.remove node removed).epoch),
        cluster.remove node removed) := by
  have hvalid : cluster.validateGeneration node removed.generation = .ok () := by
    rw [validateGeneration, h]
    exact if_pos rfl
  rw [leave, h, hvalid]
  rfl

end InMemoryCluster

end HydraCache.Cluster
