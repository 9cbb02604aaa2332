import HydraCache.Cluster.Membership

/-!
# Which generation of a node is admitted

A cluster is built by joins, leaves and replacements by clusters built the same way (`Built`).
Beside it stands the account a reader of the operations keeps: for each node the generation of its
most recent accepted join, forgotten at its leave.

Where no client joins under the name of a member, no node is both a member and a client, and exactly
the generation of the account is validated (`built_disjoint_and_current`). A client's join under the
name of a member leaves the member's entry standing in front of it, so the node is both, and the
generation that joined last is refused (`client_join_keeps_member`).

The bridge from discovery offers the nodes that are discovered to the control plane, and skips those
that it remembers to have admitted. Where others neither join nor take out such a node, a candidate
skipped as already current is in the tables (`skipped_listed`). The bridge does not hear of a leave,
and skips a node that is no longer there (`left_candidate_skipped`).
-/

set_option autoImplicit false

namespace HydraCache.Cluster

open Lib AList

variable {event : Option ClusterMembershipEvent} {generation : ℕ}

namespace InMemoryCluster

/-- The account after a join, and after a leave. -/
def recordJoin (account : NodeId → Option ℕ) (candidate : ClusterCandidate) : NodeId → Option ℕ :=
  Function.update account candidate.nodeId (some candidate.generation)

def recordLeave (account : NodeId → Option ℕ) (node : NodeId) : NodeId → Option ℕ :=
  Function.update account node none

section

variable (allowed : InMemoryCluster → ClusterCandidate → Prop)

/-- The clusters that operations lead to, with their accounts, where `allowed` says which clients
may join. An operation that is refused changes nothing. -/
inductive Built : InMemoryCluster → (NodeId → Option ℕ) → Prop where
  | new (name : String) : Built { name } fun _ ↦ none
  | joinMember {cluster next account}
      (candidate : ClusterCandidate) (member : ClusterMember) (hbuilt : Built cluster account)
      (hjoin : cluster.joinMember candidate = .ok (member, next)) :
      Built next (recordJoin account candidate)
  | joinClient {cluster next account}
      (candidate : ClusterCandidate) (client : ClusterMember) (hbuilt : Built cluster account)
      (hallowed : allowed cluster candidate)
      (hjoin : cluster.joinClient candidate = .ok (client, next)) :
      Built next (recordJoin account candidate)
  | leave {cluster next account} (node : NodeId)
      (generation : ℕ) (event : Option ClusterMembershipEvent) (hbuilt : Built cluster account)
      (hleave : cluster.leave node generation = .ok (event, next)) :
      Built next (recordLeave account node)
  | replace {cluster staged next account stagedAccount}
      (hbuilt : Built cluster account) (hstaged : Built staged stagedAccount)
      (hreplace : cluster.replaceMembershipFrom staged = .ok next) : Built next stagedAccount

end

/-- The client is no member. -/
def NotMember (cluster : InMemoryCluster) (candidate : ClusterCandidate) : Prop :=
  cluster.members.lookup candidate.nodeId = none

/-- No node is in both tables, and the admitted generations are those of the account. -/
structure Accounted (cluster : InMemoryCluster) (account : NodeId → Option ℕ) : Prop where
  disjoint : ∀ node, cluster.members.lookup node = none ∨ cluster.clients.lookup node = none
  current : ∀ node, cluster.currentGeneration node = account node

variable {cluster next : InMemoryCluster} {account : NodeId → Option ℕ}
  {candidate : ClusterCandidate} {node : NodeId}

theorem accounted_admitMember (h : Accounted cluster account) :
    Accounted (cluster.admitMember { candidate with role := .member })
      (recordJoin account candidate) := by
  refine ⟨fun node ↦ ?_, fun node ↦ ?_⟩
  · rcases eq_or_ne node candidate.nodeId with rfl | hne
    · exact .inr (lookup_erase _ _)
    · exact (h.disjoint node).imp (lookup_insert_ne hne).trans (lookup_erase_ne hne).trans
  · unfold currentGeneration admitted admitMember recordJoin
    rw [KeyMap.lookup_insert_apply, KeyMap.lookup_erase_apply, Function.update_apply]
    split_ifs
    · rfl
    · exact h.current node

theorem accounted_connectClient (hnot : NotMember cluster candidate)
    (h : Accounted cluster account) :
    Accounted (cluster.connectClient { candidate with role := .client })
      (recordJoin account candidate) := by
  refine ⟨fun node ↦ ?_, fun node ↦ ?_⟩
  · rcases eq_or_ne node candidate.nodeId with rfl | hne
    · exact .inl hnot
    · exact (h.disjoint node).imp id (lookup_insert_ne hne).trans
  · unfold currentGeneration admitted connectClient recordJoin
    rw [KeyMap.lookup_insert_apply, Function.update_apply]
    split_ifs with hnode
    · rw [hnode, hnot]
      rfl
    · exact h.current node

theorem accounted_remove (node : NodeId) (removed : ClusterMember) (h : Accounted cluster account) :
    Accounted (cluster.remove node removed) (recordLeave account node) := by
  refine ⟨fun other ↦ ?_, fun other ↦ ?_⟩
  · rcases eq_or_ne other node with rfl | hne
    · exact .inl (lookup_erase _ _)
    · exact (h.disjoint other).imp (lookup_erase_ne hne).trans (lookup_erase_ne hne).trans
  · unfold currentGeneration admitted remove recordLeave
    rw [KeyMap.lookup_erase_apply, KeyMap.lookup_erase_apply, Function.update_apply]
    split_ifs
    · rfl
    · exact h.current other

theorem accounted_leave
    (hleave : cluster.leave node generation = .ok (event, next)) (h : Accounted cluster account) :
    Accounted next (recordLeave account node) := by
  unfold leave at hleave
  split at hleave
  · next hnone =>
    -- a node that is not admitted has nothing to forget
    cases hleave
    have haccount : account node = none := by
      rw [← h.current node, currentGeneration, hnone]
      rfl
    rwa [recordLeave, ← haccount, Function.update_eq_self]
  · next removed _ =>
    obtain ⟨_, -, hrem⟩ := bind_eq_ok_iff.mp hleave
    cases hrem
    exact accounted_remove node removed h

theorem accounted_of_built (h : Built NotMember cluster account) : Accounted cluster account := by
  induction h with
  | new => exact ⟨fun _ ↦ .inl rfl, fun _ ↦ rfl⟩
  | joinMember _ _ _ hjoin ih =>
    obtain ⟨_, -, hjoined⟩ := bind_eq_ok_iff.mp hjoin
    cases hjoined
    exact accounted_admitMember ih
  | joinClient _ _ _ hallow hjoin ih =>
    obtain ⟨_, -, hjoined⟩ := bind_eq_ok_iff.mp hjoin
    cases hjoined
    exact accounted_connectClient hallow ih
  | leave _ _ _ _ hleave ih => exact accounted_leave hleave ih
  | replace _ _ hreplace _ ih =>
    unfold replaceMembershipFrom at hreplace
    split_ifs at hreplace
    cases hreplace
    exact ⟨ih.disjoint, ih.current⟩

theorem validateGeneration_eq_ok_iff :
    cluster.validateGeneration node generation = .ok () ↔
      cluster.currentGeneration node = some generation := by
  unfold validateGeneration currentGeneration
  cases cluster.admitted node with
  | none => exact iff_of_false nofun nofun
  | some existing =>
    dsimp only
    by_cases h : existing.generation = generation
    · rw [if_pos h]
      exact iff_of_true rfl (congrArg some h)
    · rw [if_neg h]
      exact iff_of_false nofun fun hsome ↦ h (Option.some.inj hsome)

/-- Assumes: a cluster built without a client joining under the name of a member. No node is both,
and exactly the generation of a node's most recent join, not followed by a leave, is validated. -/
theorem built_disjoint_and_current (h : Built NotMember cluster account) :
    (∀ node, ¬((cluster.members.lookup node).isSome ∧ (cluster.clients.lookup node).isSome)) ∧
    ∀ node generation, cluster.validateGeneration node generation = .ok () ↔
      account node = some generation := by
  have hacc := accounted_of_built h
  refine ⟨fun node hboth ↦ ?_, fun node generation ↦ ?_⟩
  · rcases hacc.disjoint node with hnone | hnone
    · exact Option.isSome_iff_ne_none.mp hboth.1 hnone
    · exact Option.isSome_iff_ne_none.mp hboth.2 hnone
  · rw [validateGeneration_eq_ok_iff, hacc.current]

/-- A member that left and came back as a client. -/
theorem built_disjoint_and_current_rejoined : let node := "node-a"
    ∃ cluster account, Built NotMember cluster account ∧
      cluster.validateGeneration node 2 = .ok () ∧ cluster.validateGeneration node 1 ≠ .ok () := by
  intro node
  have hmem : Built NotMember _ _ := .joinMember ⟨node, 1, .member⟩ _ (.new "cluster") rfl
  have hleft := Built.leave node 1 _ hmem rfl
  have hclient := Built.joinClient ⟨node, 2, .client⟩ _ hleft rfl rfl
  refine ⟨_, _, hclient, ?_, fun hold ↦ ?_⟩
  · exact ((built_disjoint_and_current hclient).2 node 2).mpr rfl
  · exact absurd (((built_disjoint_and_current hclient).2 node 1).mp hold) (by decide)

/-- A client joins under the name of a member with a higher generation: the node is both, its last
generation is refused and the one before it is validated. -/
theorem client_join_keeps_member : let node := "node-a"
    ∃ cluster account, Built (fun _ _ ↦ True) cluster account ∧ account node = some 2 ∧
      (cluster.members.lookup node).isSome ∧ (cluster.clients.lookup node).isSome ∧
      cluster.validateGeneration node 2 ≠ .ok () ∧ cluster.validateGeneration node 1 = .ok () := by
  intro node
  have hmem : Built (fun _ _ ↦ True) _ _ := .joinMember ⟨node, 1, .member⟩ _ (.new "cluster") rfl
  have hclient := Built.joinClient ⟨node, 2, .client⟩ _ hmem trivial rfl
  exact ⟨_, _, hclient, rfl, rfl, rfl, nofun, rfl⟩

end InMemoryCluster

open InMemoryCluster

/-! ### The bridge from discovery -/

/-- The table of a role. -/
def InMemoryCluster.table (cluster : InMemoryCluster) : ClusterRole → KeyMap NodeId ClusterMember
  | .local => ∅
  | .client => cluster.clients
  | .member => cluster.members

structure ClusterAdmissionSnapshot where
  generation : ℕ
  role : ClusterRole

/-- Why a candidate is not offered to the control plane. -/
inductive PreAdmissionEvent where
  | localRole
  | roleDisabled
  | alreadyCurrent
  | staleGeneration (existing attempted : ℕ)

structure ClusterAdmissionBridgeConfig where
  admitMembers : Bool := true
  admitClients : Bool := true

def ClusterAdmissionBridgeConfig.admits (config : ClusterAdmissionBridgeConfig) : ClusterRole → Bool
  | .local => false
  | .client => config.admitClients
  | .member => config.admitMembers

/-- The control plane, what the bridge remembers of the nodes it admitted, and an admission that is
not recorded yet. -/
structure ClusterAdmissionBridge where
  controlPlane : InMemoryCluster
  admitted : KeyMap NodeId ClusterAdmissionSnapshot := ∅
  pending : Option ClusterMember := none

/-- The bridge offers a candidate to the control plane and records the admission; others join and
leave. -/
inductive BridgeEvent where
  | admitCandidate (candidate : ClusterCandidate)
  | recordAdmitted
  | join (candidate : ClusterCandidate) (role : ClusterRole)
  | leave (node : NodeId) (generation : ℕ)

namespace ClusterAdmissionBridge

section

variable (config : ClusterAdmissionBridgeConfig) (bridge : ClusterAdmissionBridge)

def preAdmissionEvent (candidate : ClusterCandidate) : Option PreAdmissionEvent :=
  if candidate.role = .local then some .localRole
  else if config.admits candidate.role = false then some .roleDisabled
  else (bridge.admitted.lookup candidate.nodeId).bind fun existing ↦
    if candidate.generation < existing.generation then
      some (.staleGeneration existing.generation candidate.generation)
    else if existing.generation = candidate.generation ∧ existing.role = candidate.role then
      some .alreadyCurrent
    else none

/-- The bridge once an operation on the control plane has returned. -/
def after {α : Type} : Except CacheError (α × InMemoryCluster) → ClusterAdmissionBridge
  | .ok (_, controlPlane) => { bridge with controlPlane }
  | .error _ => bridge

def step : BridgeEvent → Option ClusterAdmissionBridge
  | .admitCandidate candidate =>
    -- one candidate at a time
    if bridge.pending.isSome then none
    else match bridge.preAdmissionEvent config candidate with
      | some _ => some bridge
      | none =>
        match bridge.controlPlane.join candidate candidate.role with
        | .ok (member, controlPlane) => some { bridge with controlPlane, pending := some member }
        | .error _ => some bridge
  | .recordAdmitted => bridge.pending.map fun member ↦
    { bridge with
      admitted := bridge.admitted.insert member.nodeId ⟨member.generation, member.role⟩
      pending := none }
  | .join candidate role => some (bridge.after (bridge.controlPlane.join candidate role))
  | .leave node generation => some (bridge.after (bridge.controlPlane.leave node generation))

/-- What the bridge remembers once all is recorded. -/
def remembered : KeyMap NodeId ClusterAdmissionSnapshot :=
  match bridge.pending with
  | some member => bridge.admitted.insert member.nodeId ⟨member.generation, member.role⟩
  | none => bridge.admitted

/-- Others name no node that the bridge has admitted. -/
def Foreign : BridgeEvent → Prop
  | .join candidate _ => bridge.remembered.lookup candidate.nodeId = none
  | .leave node _ => bridge.remembered.lookup node = none
  | _ => True

/-- The tables hold what the bridge remembers. -/
def Current : Prop :=
  ∀ node snapshot, bridge.remembered.lookup node = some snapshot →
    ∃ member ∈ (bridge.controlPlane.table snapshot.role).lookup node,
      member.generation = snapshot.generation

end

/-- An operation on one node leaves the others as they were. -/
def SameOff (node : NodeId) (cluster next : InMemoryCluster) : Prop :=
  ∀ other ≠ node, ∀ role, (next.table role).lookup other = (cluster.table role).lookup other

variable {cluster next : InMemoryCluster} {candidate : ClusterCandidate} {role : ClusterRole}
  {node : NodeId} {bridge bridge' : ClusterAdmissionBridge}

theorem join_spec {member : ClusterMember} (h : cluster.join candidate role = .ok (member, next)) :
    SameOff candidate.nodeId cluster next ∧ member.nodeId = candidate.nodeId ∧
      (next.table member.role).lookup candidate.nodeId = some member := by
  obtain ⟨_, -, h⟩ := bind_eq_ok_iff.mp h
  cases role with
  | «local» => cases h
  | client =>
    cases h
    refine ⟨fun other hne role ↦ ?_, rfl, lookup_insert _⟩
    cases role with
    | client => exact lookup_insert_ne hne
    | _ => rfl
  | member =>
    cases h
    refine ⟨fun other hne role ↦ ?_, rfl, lookup_insert _⟩
    cases role with
    | «local» => rfl
    | client => exact lookup_erase_ne hne
    | member => exact lookup_insert_ne hne

theorem sameOff_leave
    (h : cluster.leave node generation = .ok (event, next)) : SameOff node cluster next := by
  intro other hne role
  unfold leave at h
  split at h
  · cases h
    rfl
  · obtain ⟨_, -, h⟩ := bind_eq_ok_iff.mp h
    cases h
    cases role with
    | «local» => rfl
    | _ => exact lookup_erase_ne hne

/-- Others change the tables at a node that the bridge does not remember. -/
theorem Current.after {α : Type} {result : Except CacheError (α × InMemoryCluster)}
    (h : bridge.Current) (hforeign : bridge.remembered.lookup node = none)
    (hsame : ∀ a next, result = .ok (a, next) → SameOff node bridge.controlPlane next) :
    (bridge.after result).Current := by
  obtain _ | ⟨a, next⟩ := result
  · exact h
  intro other snapshot hlook
  obtain ⟨member, hmem, hgen⟩ := h other snapshot hlook
  have hne : other ≠ node := by
    rintro rfl
    cases hforeign.symm.trans hlook
  exact ⟨member, (hsame a next rfl other hne _).trans hmem, hgen⟩

theorem current_step {config : ClusterAdmissionBridgeConfig} {event : BridgeEvent}
    (hforeign : bridge.Foreign event) (h : bridge.Current)
    (hstep : bridge.step config event = some bridge') :
    bridge'.Current := by
  cases event with
  | admitCandidate candidate =>
    simp only [step] at hstep
    split_ifs at hstep with hbusy
    split at hstep
    · cases hstep
      exact h
    split at hstep
    · rename_i member next hjoin
      cases hstep
      obtain ⟨hsame, hnode, hmem⟩ := join_spec hjoin
      intro node snapshot hlook
      rcases eq_or_ne node member.nodeId with rfl | hne
      · cases (lookup_insert _).symm.trans hlook
        exact ⟨member, hnode ▸ hmem, rfl⟩
      · obtain ⟨found, hfound, hgen⟩ := h node snapshot (by
          rw [remembered, Option.not_isSome_iff_eq_none.mp hbusy]
          exact (lookup_insert_ne hne).symm.trans hlook)
        exact ⟨found, (hsame node (hnode ▸ hne) _).trans hfound, hgen⟩
    · cases hstep
      exact h
  | recordAdmitted =>
    obtain ⟨member, hpend, rfl⟩ := Option.map_eq_some_iff.mp hstep
    simpa [Current, remembered, hpend] using h
  | join =>
    cases hstep
    exact h.after hforeign fun _ _ hjoin ↦ (join_spec hjoin).1
  | leave =>
    cases hstep
    exact h.after hforeign fun _ _ ↦ sameOff_leave

/-- Assumes: others neither join nor take out a node that the bridge has admitted. Whenever the
bridge takes up a candidate, one that it skips as already current is in the table of its role with
its generation, and one whose node is in no table is offered to the control plane. -/
theorem skipped_listed (config : ClusterAdmissionBridgeConfig) (cluster : InMemoryCluster)
    (events : List BridgeEvent) (bridge : ClusterAdmissionBridge)
    (hforeign : Along (step config) Foreign { controlPlane := cluster } events)
    (hrun : run (step config) { controlPlane := cluster } events = some bridge)
    (hidle : bridge.pending = none) (candidate : ClusterCandidate) :
    (bridge.preAdmissionEvent config candidate = some .alreadyCurrent →
      ∃ member ∈ (bridge.controlPlane.table candidate.role).lookup candidate.nodeId,
        member.generation = candidate.generation) ∧
    (config.admits candidate.role = true → bridge.controlPlane.admitted candidate.nodeId = none →
      bridge.preAdmissionEvent config candidate = none) := by
  have hcur : bridge.Current :=
    run_invariant (fun _ _ _ ↦ current_step) (fun _ _ h ↦ by cases h) hforeign hrun
  rw [Current, remembered, hidle] at hcur
  unfold preAdmissionEvent
  constructor
  · intro hskip
    split_ifs at hskip
    · cases hskip
    · cases hskip
    obtain ⟨existing, hlook, hskip⟩ := Option.bind_eq_some_iff.mp hskip
    split_ifs at hskip with hstale hsame
    · cases hskip
    · rw [← hsame.1, ← hsame.2]
      exact hcur _ _ hlook
  · intro hadmits hnone
    obtain ⟨hmembers, hclients⟩ := admitted_eq_none_iff.mp hnone
    have hlook : bridge.admitted.lookup candidate.nodeId = none := by
      by_contra hsome
      obtain ⟨snapshot, hlook⟩ := Option.ne_none_iff_exists'.mp hsome
      obtain ⟨member, hmem, -⟩ := hcur _ _ hlook
      cases hrole : snapshot.role <;> simp_all [InMemoryCluster.table]
    have hrole : candidate.role ≠ .local := by
      intro hrole
      rw [hrole] at hadmits
      cases hadmits
    rw [if_neg hrole, if_neg (by simp [hadmits]), hlook]
    rfl

/-- Another node comes and goes. -/
theorem skipped_listed_others :
    let events : List BridgeEvent := [.admitCandidate ⟨"node-a", 1, .member⟩, .recordAdmitted,
      .join ⟨"node-b", 1, .client⟩ .client, .leave "node-b" 1]
    ∃ bridge, run (step {}) { controlPlane := { name := "cluster" } } events = some bridge ∧
      ∃ member ∈ bridge.controlPlane.members.lookup "node-a", member.generation = 1 := by
  intro events
  refine ⟨_, rfl,
    (skipped_listed {} { name := "cluster" } events _ ?_ rfl rfl ⟨"node-a", 1, .member⟩).1 rfl⟩
  exact .cons rfl trivial (.cons rfl trivial (.cons rfl rfl (.cons rfl rfl trivial)))

/-- A member that the bridge admitted is taken out by others. It is still discovered, and the bridge
skips it as already current. -/
theorem left_candidate_skipped : let candidate := ⟨"node-a", 1, .member⟩
    ∃ bridge, run (step {}) { controlPlane := { name := "cluster" } }
        [.admitCandidate candidate, .recordAdmitted, .leave "node-a" 1] = some bridge ∧
      bridge.pending = none ∧ bridge.controlPlane.admitted "node-a" = none ∧
      bridge.preAdmissionEvent {} candidate = some .alreadyCurrent :=
  ⟨_, rfl, rfl, rfl, rfl⟩

end ClusterAdmissionBridge

end HydraCache.Cluster
