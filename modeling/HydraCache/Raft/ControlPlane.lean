import HydraCache.Raft.Metadata

/-!
# The control plane over the metadata log

A node joins or leaves through the runtime: the call checks the generation against the tables,
proposes a command with the epoch it expects, and waits until the command is applied (`joinMember`,
`joinClient`, `leave`). A proposal whose id was applied before is not proposed again. For a join
that is enough, since the id of a join holds the generation. The id of a leave holds the epoch
instead, and the leave of a client does not advance the epoch: a client that leaves, joins again and
leaves again at the same epoch is told that it left (`leave_keeps_client`).

`leave_removes_iff` says for which states a leave that returns has removed the node: those in which
the id of its command is new (`LeaveIsNew`).

Scope. What the raft library does during a call is a parameter: the entries it commits for the
proposal and while the call waits, or an error. The results kept for diagnostics and the optional
store of exported snapshots are left out.
-/

set_option autoImplicit false

namespace HydraCache.Raft

open Lib Cluster RaftMetadataCommand

/-! ### The calls -/

def predictedMemberEpoch (cluster : InMemoryCluster) (candidate : ClusterCandidate) : ℕ :=
  let shouldAdvance := ((cluster.members.lookup candidate.nodeId).map
    fun existing ↦ decide (existing.generation < candidate.generation)).getD true
  if shouldAdvance then saturatingSucc cluster.epoch else cluster.epoch

def predictedLeaveEpoch (cluster : InMemoryCluster) (node : NodeId) : Option (ClusterRole × ℕ) :=
  match cluster.members.lookup node with
  | some member => some (member.role, saturatingSucc cluster.epoch)
  | none => (cluster.clients.lookup node).map fun member ↦ (member.role, cluster.epoch)

def rejectStaleCandidate (cluster : InMemoryCluster) (candidate : ClusterCandidate) :
    Except CacheError Unit :=
  match (cluster.members.lookup candidate.nodeId).or (cluster.clients.lookup candidate.nodeId) with
  | some existing =>
    if candidate.generation < existing.generation then
      .error (InMemoryCluster.staleGeneration candidate.nodeId existing.generation
        candidate.generation)
    else .ok ()
  | none => .ok ()

inductive RaftCommandStatus where
  | committed
  | forwarded
  | duplicate
deriving DecidableEq

/-- What the raft library does during a call: how it applies a configuration change, the entries it
commits once a command is proposed, or its error, and the entries committed while the call waits. -/
structure RawNode where
  confChange : Entry → Except CacheError Unit
  propose : RaftMetadataCommandEnvelope → Except CacheError (List Entry)
  meanwhile : List Entry

section

variable (raw : RawNode)

def commitCommand (envelope : RaftMetadataCommandEnvelope) : RuntimeMethod RaftCommandStatus := do
  let state ← get
  if envelope.commandId ∈ state.appliedCommandIds then pure .duplicate
  else do
    let entries ← liftExcept (raw.propose envelope)
    applyCommittedEntries raw.confChange entries
    let state ← get
    pure (if envelope.commandId ∈ state.appliedCommandIds then .committed else .forwarded)

/-- Wait for a forwarded command. The entries that arrive are applied by whoever received them, so
an error of theirs is not an error of the call. -/
def waitForForwardedApply (commandId : String) : RaftCommandStatus → RuntimeMethod Unit
  | .forwarded => do
    modify fun state ↦ raw.meanwhile.foldl
      (fun state entry ↦ ((applyCommittedEntry raw.confChange entry).run.run state).2) state
    let state ← get
    if commandId ∈ state.appliedCommandIds then pure ()
    else
      throw (.backend ("raft metadata command " ++ commandId ++
        " was forwarded but not applied locally before timeout"))
  | .committed | .duplicate => pure ()

/-- Commit the upsert of a node and return its entry in the table of the role. -/
def commitUpsert (node : NodeId) (role : ClusterRole) (kind : String)
    (command : RaftMetadataCommand) :
    RuntimeMethod ClusterMember := do
  let status ← commitCommand raw command.envelope
  let state ← get
  match if status = .duplicate then findMaterialized state.cluster node role else none with
  | some member => pure member
  | none => do
    waitForForwardedApply raw (commandIdFor command) status
    let state ← get
    match findMaterialized state.cluster node role with
    | some member => pure member
    | none =>
      throw (.backend ("committed raft metadata command " ++ commandIdFor command ++
        " did not materialize " ++ kind ++ " " ++ node))

def joinMember (candidate : ClusterCandidate) : RuntimeMethod ClusterMember := do
  let candidate := { candidate with role := .member }
  let state ← get
  liftExcept (rejectStaleCandidate state.cluster candidate)
  commitUpsert raw candidate.nodeId .member "member"
    (.memberUpsert candidate.nodeId candidate.generation
      (predictedMemberEpoch state.cluster candidate))

def joinClient (candidate : ClusterCandidate) : RuntimeMethod ClusterMember := do
  let candidate := { candidate with role := .client }
  let state ← get
  liftExcept (rejectStaleCandidate state.cluster candidate)
  commitUpsert raw candidate.nodeId .client "client"
    (.clientUpsert candidate.nodeId candidate.generation state.cluster.epoch)

/-- Commit a leave and report it once the node is in neither table. -/
def commitLeave (node : NodeId) (role : ClusterRole) (epoch : ℕ) :
    RuntimeMethod (Option ClusterMembershipEvent) := do
  let status ← commitCommand raw (envelope (.nodeLeft node role epoch))
  if status = .duplicate then pure none
  else do
    waitForForwardedApply raw (commandIdFor (.nodeLeft node role epoch)) status
    let state ← get
    if (predictedLeaveEpoch state.cluster node).isNone then pure (some (.nodeLeft node role epoch))
    else
      throw (.backend ("committed raft metadata command " ++
        commandIdFor (.nodeLeft node role epoch) ++ " did not materialize leave for " ++ node))

def leave (node : NodeId) (generation : ℕ) : RuntimeMethod (Option ClusterMembershipEvent) := do
  let state ← get
  match predictedLeaveEpoch state.cluster node with
  | none => pure none
  | some (role, epoch) => do
    liftExcept (state.cluster.validateGeneration node generation)
    commitLeave raw node role epoch

end

/-! ### What a leave that returns has done -/

variable {raw : RawNode} {state next : RaftRuntimeState} {cluster : InMemoryCluster} {node : NodeId}
  {generation : ℕ} {role : ClusterRole} {epoch : ℕ} {event : Option ClusterMembershipEvent}
  {envelope : RaftMetadataCommandEnvelope}

/-- The id of the command that the leave of the node proposes was not applied before. -/
def LeaveIsNew (state : RaftRuntimeState) (node : NodeId) : Prop :=
  ∀ role epoch, predictedLeaveEpoch state.cluster node = some (role, epoch) →
    commandIdFor (.nodeLeft node role epoch) ∉ state.appliedCommandIds

theorem predictedLeaveEpoch_eq_none_iff :
    predictedLeaveEpoch cluster node = none ↔ cluster.admitted node = none := by
  rw [InMemoryCluster.admitted_eq_none_iff, predictedLeaveEpoch]
  cases cluster.members.lookup node <;> simp

theorem validateGeneration_of_currentGeneration
    (h : cluster.currentGeneration node = some generation) :
    cluster.validateGeneration node generation = .ok () := by
  obtain ⟨member, hadm, hgen⟩ := InMemoryCluster.currentGeneration_eq_some_iff.mp h
  rw [InMemoryCluster.validateGeneration, hadm]
  exact if_pos hgen

/-- A leave of a node under its own generation commits the predicted command. -/
theorem returns_leave_iff (hgen : state.cluster.currentGeneration node = some generation)
    (hpred : predictedLeaveEpoch state.cluster node = some (role, epoch)) :
    Returns (leave raw node generation) state event next ↔
      Returns (commitLeave raw node role epoch) state event next := by
  rw [leave, returns_get_bind_iff, hpred, returns_liftExcept_bind_iff,
    validateGeneration_of_currentGeneration hgen]
  simp

theorem returns_commitCommand_duplicate (h : envelope.commandId ∈ state.appliedCommandIds) :
    Returns (commitCommand raw envelope) state .duplicate state := by
  rw [commitCommand, returns_get_bind_iff, if_pos h, returns_pure_iff]
  exact ⟨rfl, rfl⟩

/-- A command that was not applied before is no duplicate. -/
theorem not_duplicate_of_returns {status : RaftCommandStatus}
    (hnew : envelope.commandId ∉ state.appliedCommandIds)
    (h : Returns (commitCommand raw envelope) state status next) : status ≠ .duplicate := by
  rw [commitCommand, returns_get_bind_iff, if_neg hnew, returns_liftExcept_bind_iff] at h
  obtain ⟨entries, -, h⟩ := h
  obtain ⟨-, middle, -, h⟩ := returns_bind_iff.mp h
  rw [returns_get_bind_iff, returns_pure_iff] at h
  rw [h.1]
  split_ifs <;> exact RaftCommandStatus.noConfusion

/-- Assumes: a node that is admitted with the generation. Whatever the raft library does, the leave
removes the node whenever it returns exactly when the id of its command is new. -/
theorem leave_removes_iff (raw : RawNode)
    (hgeneration : state.cluster.currentGeneration node = some generation) :
    (∀ event next, Returns (leave raw node generation) state event next →
        next.cluster.members.lookup node = none ∧ next.cluster.clients.lookup node = none) ↔
      LeaveIsNew state node := by
  obtain ⟨member, hadm, -⟩ := InMemoryCluster.currentGeneration_eq_some_iff.mp hgeneration
  simp only [← InMemoryCluster.admitted_eq_none_iff]
  constructor
  · intro hrem role epoch hpred hid
    -- a leave that was applied before returns at once and leaves the tables as they are
    have hret : Returns (leave raw node generation) state none state := by
      rw [returns_leave_iff hgeneration hpred]
      refine returns_bind_iff.mpr ⟨_, _, returns_commitCommand_duplicate hid, ?_⟩
      rw [if_pos rfl]
      exact returns_pure_iff.mpr ⟨rfl, rfl⟩
    simp [hrem none state hret] at hadm
  · intro hnew event next hret
    cases hpred : predictedLeaveEpoch state.cluster node with
    | none => simp [predictedLeaveEpoch_eq_none_iff.mp hpred] at hadm
    | some predicted =>
      obtain ⟨role, epoch⟩ := predicted
      rw [returns_leave_iff hgeneration hpred] at hret
      obtain ⟨status, middle, hcom, hrest⟩ := returns_bind_iff.mp hret
      rw [if_neg (not_duplicate_of_returns (hnew role epoch hpred) hcom)] at hrest
      obtain ⟨-, final, -, hfinal⟩ := returns_bind_iff.mp hrest
      rw [returns_get_bind_iff] at hfinal
      split_ifs at hfinal with hgone
      · rw [(returns_pure_iff.mp hfinal).2]
        exact predictedLeaveEpoch_eq_none_iff.mp (Option.isNone_iff_eq_none.mp hgone)
      · cases hfinal

/-- The raft library of a leader that commits each proposal at once, in the entry of the index. -/
def leaderAt (index : ℕ) : RawNode where
  confChange _ := .ok ()
  propose envelope := .ok [{ index, data := encodeEnvelope envelope }]
  meanwhile := []

inductive ControlCall where
  | joinMember (candidate : ClusterCandidate)
  | joinClient (candidate : ClusterCandidate)
  | leave (node : NodeId) (generation : ℕ)

def control (raw : RawNode) : ControlCall → RuntimeMethod Unit
  | .joinMember candidate => do
    let _ ← joinMember raw candidate
    pure ()
  | .joinClient candidate => do
    let _ ← joinClient raw candidate
    pure ()
  | .leave node generation => do
    let _ ← leave raw node generation
    pure ()

/-- A call of a history, with what the raft library did during it. The state is the one the call
left, whether it returned or failed. -/
def controlStep (state : RaftRuntimeState) (label : RawNode × ControlCall) :
    Option RaftRuntimeState :=
  some ((control label.1 label.2).run.run state).2

/-- A client joins, leaves and joins again. -/
def clientRejoins : List (RawNode × ControlCall) :=
  [(leaderAt 1, .joinClient { nodeId := "a", generation := 1, role := .client }),
    (leaderAt 2, .leave "a" 1),
    (leaderAt 3, .joinClient { nodeId := "a", generation := 2, role := .client })]

theorem leave_removes_client :
    ∃ state event next,
      run controlStep { cluster := { name := "orders" } } (clientRejoins.take 1) = some state ∧
      Returns (leave (leaderAt 2) "a" 1) state event next ∧
      next.cluster.members.lookup "a" = none ∧ next.cluster.clients.lookup "a" = none := by
  obtain ⟨state, hrun, hgen, hpred, hid, hret⟩ :
      ∃ state ∈ run controlStep { cluster := { name := "orders" } } (clientRejoins.take 1),
        state.cluster.currentGeneration "a" = some 1 ∧
        predictedLeaveEpoch state.cluster "a" = some (.client, 0) ∧
        commandIdFor (.nodeLeft "a" .client 0) ∉ state.appliedCommandIds ∧
        ((leave (leaderAt 2) "a" 1).run.run state).1 = .ok (some (.nodeLeft "a" .client 0)) := by
    decide +kernel
  have hnew : LeaveIsNew state "a" := by
    intro role epoch h
    cases hpred.symm.trans h
    exact hid
  exact ⟨state, _, _, hrun, Prod.ext hret rfl,
    (leave_removes_iff (leaderAt 2) hgen).mpr hnew _ _ (Prod.ext hret rfl)⟩

/-- The second leave of the client at the same epoch returns, and the client is still there. -/
theorem leave_keeps_client :
    (run controlStep { cluster := { name := "orders" } } clientRejoins).map (fun state ↦
        (state.cluster.currentGeneration "a", (leave (leaderAt 4) "a" 2).run.run state |>.1,
          ((leave (leaderAt 4) "a" 2).run.run state).2.cluster.clients.lookup "a")) =
      some (some 2, .ok none,
        some { nodeId := "a", generation := 2, role := .client, epoch := 0 }) := by
  decide +kernel

end HydraCache.Raft
