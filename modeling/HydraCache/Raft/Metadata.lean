import HydraCache.Lib.Fallible
import HydraCache.Raft.Command
import HydraCache.Raft.LogStore
import Mathlib.Data.Finset.Basic

/-!
# The metadata runtime

Every replica holds the membership tables and applies the committed entries of the raft log to them
(`applyCommittedEntries`). An entry with a command whose id was applied before is passed over; any
other command is materialised in the tables and recorded in the list of commands. The recorded
commands are the snapshot: a replica that starts from one replays them on an empty cluster
(`stageMetadataSnapshot`) and goes on with the entries after it (`restoreCommittedState`).

There are three ways a command reaches the tables, and they do not refuse the same commands.
`materializeCommand` refuses a join below the admitted generation. `materializeCommittedCommand`,
for the log, first passes over what the tables already show. `materializeSnapshotCommand`, for a
snapshot, first refuses the leave of a node that is not in the table of its role. `commandEffect` is
what a command that is not refused and not passed over does (`materializeCommand_eq_ok_iff`,
`materializeCommittedCommand_eq_ok_iff`, `materializeSnapshotCommand_eq_ok_iff`).

Scope. The raft library is a parameter: it decides which entries are committed, and a configuration
change is any function of its entry that may fail. The snapshot payload is written and read by a
parameter that reads back what it wrote (`PayloadCodec`). Left out are the results of earlier
proposals, the counters and the optional store of exported snapshots, which no function here reads.
-/

set_option autoImplicit false

namespace HydraCache.Raft

open Lib Cluster

/-! ### Materialising a command -/

section

variable (cluster : InMemoryCluster)

/-- The entry of a node in the table of a role. -/
def findMaterialized (node : NodeId) : ClusterRole → Option ClusterMember
  | .member => cluster.members.lookup node
  | .client => cluster.clients.lookup node
  | .local => none

def materializeCommand :
    RaftMetadataCommand → Except CacheError (Option ClusterMembershipEvent × InMemoryCluster)
  | .memberUpsert node generation _ => do
    let joined ← cluster.joinMember { nodeId := node, generation, role := .member }
    .ok (none, joined.2)
  | .clientUpsert node generation _ => do
    let joined ← cluster.joinClient { nodeId := node, generation, role := .client }
    .ok (none, joined.2)
  | .nodeLeft node _ _ =>
    match cluster.currentGeneration node with
    | some generation => cluster.leave node generation
    | none => .ok (none, cluster)
  | .commitTopology _ _ => .ok (none, cluster)

/-- A role as the source prints it for debugging. -/
def roleDebug : ClusterRole → String
  | .local => "Local"
  | .client => "Client"
  | .member => "Member"

def materializeSnapshotCommand (command : RaftMetadataCommand) :
    Except CacheError (Option ClusterMembershipEvent × InMemoryCluster) :=
  match command with
  | .nodeLeft node role _ =>
    if (findMaterialized cluster node role).isNone then
      .error (.backend ("node-left references absent " ++ roleDebug role ++ " '" ++ node ++ "'"))
    else materializeCommand cluster command
  | _ => materializeCommand cluster command

/-- The tables already show the command: the entry of its role is as new, or the node is gone. -/
def Settled : RaftMetadataCommand → Prop
  | .memberUpsert node generation _ =>
    ∃ member ∈ findMaterialized cluster node .member, generation ≤ member.generation
  | .clientUpsert node generation _ =>
    ∃ member ∈ findMaterialized cluster node .client, generation ≤ member.generation
  | .nodeLeft node _ _ =>
    findMaterialized cluster node .member = none ∧ findMaterialized cluster node .client = none
  | .commitTopology _ _ => True

end

instance (cluster : InMemoryCluster) : DecidablePred (Settled cluster)
  | .memberUpsert _ _ _ | .clientUpsert _ _ _ =>
    inferInstanceAs (Decidable (∃ member ∈ findMaterialized cluster _ _, _ ≤ member.generation))
  | .nodeLeft _ _ _ => inferInstanceAs (Decidable (_ ∧ _))
  | .commitTopology _ _ => .isTrue trivial

section

variable (cluster : InMemoryCluster)

def materializeCommittedCommand (command : RaftMetadataCommand) :
    Except CacheError InMemoryCluster :=
  if Settled cluster command then .ok cluster
  else do
    let materialized ← materializeCommand cluster command
    .ok materialized.2

/-! ### What a command does -/

/-- The command is a join below the admitted generation. -/
def Stale : RaftMetadataCommand → Prop
  | .memberUpsert node generation _ | .clientUpsert node generation _ =>
    ∃ existing ∈ cluster.currentGeneration node, generation < existing
  | .nodeLeft _ _ _ | .commitTopology _ _ => False

/-- What a command does to the tables. -/
def commandEffect : RaftMetadataCommand → InMemoryCluster
  | .memberUpsert node generation _ =>
    cluster.admitMember { nodeId := node, generation, role := .member }
  | .clientUpsert node generation _ =>
    cluster.connectClient { nodeId := node, generation, role := .client }
  | .nodeLeft node _ _ => (cluster.admitted node).elim cluster (cluster.remove node)
  | .commitTopology _ _ => cluster

/-- The node of a leave is in the table of its role. -/
def InRoleTable : RaftMetadataCommand → Prop
  | .nodeLeft node role _ => (findMaterialized cluster node role).isSome
  | _ => True

end

variable {cluster next : InMemoryCluster} {command : RaftMetadataCommand}

/-- A command is materialised unless it is stale, and then its effect is all that happens. -/
theorem materializeCommand_eq_ok_iff :
    (∃ event, materializeCommand cluster command = .ok (event, next)) ↔
      ¬ Stale cluster command ∧ next = commandEffect cluster command := by
  have hjoin (join : Except CacheError (ClusterMember × InMemoryCluster)) :
      (∃ event : Option ClusterMembershipEvent, (do let joined ← join; .ok (none, joined.2)) =
        .ok (event, next)) ↔ ∃ member, join = .ok (member, next) := by
    cases join <;> simp [Prod.ext_iff, bind, Except.bind]
  cases command with
  | memberUpsert | clientUpsert =>
    exact (hjoin _).trans InMemoryCluster.rejectStaleGeneration_bind_eq_ok_iff
  | nodeLeft node =>
    simp only [materializeCommand, Stale, not_false_eq_true, true_and, commandEffect,
      InMemoryCluster.currentGeneration]
    cases hadm : cluster.admitted node with
    | none => simp [eq_comm]
    | some =>
      simp only [Option.map_some, InMemoryCluster.leave_of_currentGeneration hadm, Option.elim_some]
      simp [eq_comm]
  | commitTopology => simp [materializeCommand, Stale, commandEffect, eq_comm]

/-- A leave adds nothing to the tables. -/
theorem mem_of_mem_nodeLeft {node other : NodeId} {role : ClusterRole} {epoch : ℕ} :
    (∀ member ∈ (commandEffect cluster (.nodeLeft node role epoch)).members.lookup other,
        member ∈ cluster.members.lookup other) ∧
      ∀ member ∈ (commandEffect cluster (.nodeLeft node role epoch)).clients.lookup other,
        member ∈ cluster.clients.lookup other := by
  rw [commandEffect]
  cases cluster.admitted node with
  | none => exact ⟨fun _ hmem ↦ hmem, fun _ hmem ↦ hmem⟩
  | some =>
    exact ⟨fun _ hmem ↦ (KeyMap.of_lookup_erase hmem).2,
      fun _ hmem ↦ (KeyMap.of_lookup_erase hmem).2⟩

/-- From the log, a command the tables already show is passed over. -/
theorem materializeCommittedCommand_eq_ok_iff :
    materializeCommittedCommand cluster command = .ok next ↔
      Settled cluster command ∧ next = cluster ∨
        ¬ Settled cluster command ∧ ¬ Stale cluster command ∧
          next = commandEffect cluster command := by
  rw [materializeCommittedCommand, ← materializeCommand_eq_ok_iff]
  split_ifs with h
  · simp [h, eq_comm]
  · simp only [h, false_and, false_or, not_false_eq_true, true_and, bind_eq_ok_iff]
    constructor
    · rintro ⟨⟨event, materialized⟩, hmat, hnext⟩
      cases hnext
      exact ⟨event, hmat⟩
    · rintro ⟨event, hmat⟩
      exact ⟨(event, next), hmat, rfl⟩

/-- From a snapshot, the leave of a node outside the table of its role is refused. -/
theorem materializeSnapshotCommand_eq_ok_iff :
    (∃ event, materializeSnapshotCommand cluster command = .ok (event, next)) ↔
      InRoleTable cluster command ∧ ¬ Stale cluster command ∧
        next = commandEffect cluster command := by
  rw [← materializeCommand_eq_ok_iff]
  cases command with
  | nodeLeft node role =>
    unfold materializeSnapshotCommand InRoleTable
    cases hfind : findMaterialized cluster node role <;> simp [hfind]
  | memberUpsert node generation epoch | clientUpsert node generation epoch
  | commitTopology epoch members => simp [materializeSnapshotCommand, InRoleTable]

/-! ### Applying the log -/

structure RaftRuntimeState where
  cluster : InMemoryCluster
  commands : List RaftMetadataCommandEnvelope := []
  appliedCommandIds : Finset String := ∅
  appliedIndex : ℕ := 0

namespace RaftRuntimeState

section

variable (state : RaftRuntimeState)

/-- The entries up to the index were applied. -/
@[simps] def reached (index : ℕ) : RaftRuntimeState :=
  { state with appliedIndex := max state.appliedIndex index }

/-- The id of the command was applied. -/
def noted (envelope : RaftMetadataCommandEnvelope) : RaftRuntimeState :=
  { state with appliedCommandIds := insert envelope.commandId state.appliedCommandIds }

/-- The command was materialised and is recorded. -/
def recorded (envelope : RaftMetadataCommandEnvelope) (cluster : InMemoryCluster) :
    RaftRuntimeState :=
  { state with
    cluster
    commands := state.commands ++ [envelope]
    appliedIndex := max state.appliedIndex (state.commands.length + 1) }

end

end RaftRuntimeState

/-- A method of the runtime. -/
abbrev RuntimeMethod := Fallible CacheError RaftRuntimeState

/-- Apply a decoded command unless its id was applied before. The id is noted before the tables are
touched, and the command is recorded after. -/
def applyEnvelope (envelope : RaftMetadataCommandEnvelope) : RuntimeMethod Unit := do
  let state ← get
  if envelope.commandId ∈ state.appliedCommandIds then pure ()
  else do
    modify (·.noted envelope)
    let cluster ← liftExcept (materializeCommittedCommand state.cluster envelope.command)
    modify (·.recorded envelope cluster)

section

variable (confChange : Entry → Except CacheError Unit)

def applyCommittedEntry (entry : Entry) : RuntimeMethod Unit := do
  modify (·.reached entry.index)
  if entry.data = [] then pure ()
  else
    match entry.entryType with
    | .normal => do
      let envelope ← liftExcept (decodeEnvelope entry.data)
      applyEnvelope envelope
    | .confChange | .confChangeV2 => liftExcept (confChange entry)

def applyCommittedEntries (entries : List Entry) : RuntimeMethod Unit :=
  forM entries (applyCommittedEntry confChange)

end

/-- The entry a proposed command becomes. -/
def commandEntry (index : ℕ) (command : RaftMetadataCommand) : Entry where
  index
  data := encodeEnvelope command.envelope

/-- The command an entry carries. -/
def envelopeOf (entry : Entry) : Option RaftMetadataCommandEnvelope :=
  if entry.data = [] ∨ entry.entryType ≠ .normal then none else (decodeEnvelope entry.data).toOption

theorem envelopeOf_eq_some_iff {entry : Entry} {envelope : RaftMetadataCommandEnvelope} :
    envelopeOf entry = some envelope ↔
      ¬ (entry.data = [] ∨ entry.entryType ≠ .normal) ∧
        decodeEnvelope entry.data = .ok envelope := by
  unfold envelopeOf
  split_ifs with hskip
  · simp [hskip]
  · cases decodeEnvelope entry.data <;> simp [hskip, Except.toOption]

section

variable (confChange : Entry → Except CacheError Unit)

theorem run_applyEnvelope (envelope : RaftMetadataCommandEnvelope) (state : RaftRuntimeState) :
    (applyEnvelope envelope).run.run state =
      if envelope.commandId ∈ state.appliedCommandIds then (.ok (), state)
      else
        match materializeCommittedCommand state.cluster envelope.command with
        | .error error => (.error error, state.noted envelope)
        | .ok cluster => (.ok (), (state.noted envelope).recorded envelope cluster) := by
  change (if envelope.commandId ∈ state.appliedCommandIds then pure () else _ :
    RuntimeMethod Unit).run.run state = _
  split_ifs with h
  · rfl
  · cases materializeCommittedCommand state.cluster envelope.command <;> rfl

theorem run_applyCommittedEntry (entry : Entry) (state : RaftRuntimeState) :
    (applyCommittedEntry confChange entry).run.run state =
      if entry.data = [] then (.ok (), state.reached entry.index)
      else
        match entry.entryType with
        | .normal =>
          match decodeEnvelope entry.data with
          | .error error => (.error error, state.reached entry.index)
          | .ok envelope => (applyEnvelope envelope).run.run (state.reached entry.index)
        | .confChange | .confChangeV2 => (confChange entry, state.reached entry.index) := by
  change (if entry.data = [] then pure () else _ : RuntimeMethod Unit).run.run
    (state.reached entry.index) = _
  split_ifs with h
  · rfl
  · cases entry.entryType with
    | normal => cases hdec : decodeEnvelope entry.data <;> rfl
    | confChange | confChangeV2 => cases confChange entry <;> rfl

/-- Everything an entry can do. An entry without a command is passed over, or fails before it does
anything; a command that was applied before is passed over; and any other command is noted, and then
recorded if it could be materialised. -/
theorem run_applyCommittedEntry_cases (entry : Entry) (state : RaftRuntimeState) :
    (envelopeOf entry = none ∧ ∃ outcome,
        (applyCommittedEntry confChange entry).run.run state =
          (outcome, state.reached entry.index) ∧
        (outcome = .ok () → entry.data = [] ∨ entry.entryType ≠ .normal)) ∨
      ∃ envelope, envelopeOf entry = some envelope ∧
        (envelope.commandId ∈ state.appliedCommandIds ∧
            (applyCommittedEntry confChange entry).run.run state =
              (.ok (), state.reached entry.index) ∨
          envelope.commandId ∉ state.appliedCommandIds ∧
            ((∃ error, materializeCommittedCommand state.cluster envelope.command = .error error ∧
                (applyCommittedEntry confChange entry).run.run state =
                  (.error error, (state.reached entry.index).noted envelope)) ∨
              ∃ cluster, materializeCommittedCommand state.cluster envelope.command = .ok cluster ∧
                (applyCommittedEntry confChange entry).run.run state =
                  (.ok (),
                    ((state.reached entry.index).noted envelope).recorded envelope cluster))) := by
  rw [run_applyCommittedEntry]
  unfold envelopeOf
  by_cases hskip : entry.data = [] ∨ entry.entryType ≠ .normal
  · -- no command: empty data, or a configuration change
    rw [if_pos hskip]
    refine .inl ⟨rfl, ?_⟩
    split_ifs with hdata
    · exact ⟨_, rfl, fun _ ↦ hskip⟩
    · cases htype : entry.entryType with
      | normal => exact absurd htype (hskip.resolve_left hdata)
      | confChange | confChangeV2 => exact ⟨_, rfl, fun _ ↦ .inr (by decide)⟩
  · obtain ⟨hdata, htype⟩ := not_or.mp hskip
    rw [if_neg hskip, if_neg hdata, not_not.mp htype]
    cases decodeEnvelope entry.data with
    | error => exact .inl ⟨rfl, _, rfl, fun h ↦ by cases h⟩
    | ok envelope =>
      refine .inr ⟨envelope, rfl, ?_⟩
      dsimp only
      rw [run_applyEnvelope, RaftRuntimeState.reached_appliedCommandIds,
        RaftRuntimeState.reached_cluster]
      by_cases hid : envelope.commandId ∈ state.appliedCommandIds
      · exact .inl ⟨hid, if_pos hid⟩
      · refine .inr ⟨hid, ?_⟩
        rw [if_neg hid]
        cases materializeCommittedCommand state.cluster envelope.command with
        | error error => exact .inl ⟨error, rfl, rfl⟩
        | ok cluster => exact .inr ⟨cluster, rfl, rfl⟩

end

/-! ### Snapshots -/

structure RaftMetadataRuntimeExport where
  clusterName : String
  raftNodeId : ℕ
  appliedIndex : ℕ
  commands : List RaftMetadataCommandEnvelope
deriving DecidableEq

structure StagedMetadataSnapshot where
  cluster : InMemoryCluster
  appliedIndex : ℕ
  commands : List RaftMetadataCommandEnvelope
  appliedCommandIds : Finset String

def exportSnapshot (state : RaftRuntimeState) (raftNodeId : ℕ) : RaftMetadataRuntimeExport where
  clusterName := state.cluster.name
  raftNodeId
  appliedIndex := state.appliedIndex
  commands := state.commands

def validateCommands (snapshotIndex : ℕ) :
    ℕ → Finset String → List RaftMetadataCommandEnvelope → Except CacheError Unit
  | _, _, [] => .ok ()
  | offset, seen, envelope :: rest =>
    let place :=
      "snapshot_index=" ++ decimal snapshotIndex ++ ", tail_index=" ++ decimal (offset + 1)
    if envelope.commandId = "" then
      .error (.backend ("raft snapshot apply error: empty command id: " ++ place))
    else if envelope.commandId ≠ commandIdFor envelope.command then
      .error (.backend ("raft snapshot apply error: command id does not match command: " ++ place ++
        ", command_id=" ++ envelope.commandId ++ ", expected_command_id=" ++
        commandIdFor envelope.command))
    else if envelope.commandId ∈ seen then
      .error (.backend ("raft snapshot apply error: duplicate command id: " ++ place ++
        ", command_id=" ++ envelope.commandId))
    else validateCommands snapshotIndex (offset + 1) (insert envelope.commandId seen) rest

def validateSnapshotApplyContract (snapshot : RaftMetadataRuntimeExport) : Except CacheError Unit :=
  if snapshot.appliedIndex < snapshot.commands.length then
    let tailIndex := max (saturatingSucc snapshot.appliedIndex) 1
    let commandId :=
      ((snapshot.commands[tailIndex - 1]?).or snapshot.commands.getLast?).elim "<none>"
      RaftMetadataCommandEnvelope.commandId
    .error (.backend
      ("raft snapshot apply error: inconsistent snapshot membership indexes: snapshot_index=" ++
        decimal snapshot.appliedIndex ++ ", command_count=" ++ decimal snapshot.commands.length ++
        ", tail_index=" ++ decimal tailIndex ++ ", command_id=" ++ commandId))
  else validateCommands snapshot.appliedIndex 0 ∅ snapshot.commands

def snapshotApplyError (snapshotIndex tailIndex : ℕ) (commandId : String) (error : CacheError) :
    CacheError :=
  .backend ("raft snapshot apply error: snapshot_index=" ++ decimal snapshotIndex ++
    ", tail_index=" ++ decimal tailIndex ++ ", command_id=" ++ commandId ++ ": " ++
    error.text)

/-- Replay the commands of a snapshot on a cluster, from the command at `offset` on. -/
def stageCommands (snapshotIndex : ℕ) :
    ℕ → InMemoryCluster → Finset String → List RaftMetadataCommandEnvelope →
      Except CacheError (InMemoryCluster × Finset String)
  | _, cluster, ids, [] => .ok (cluster, ids)
  | offset, cluster, ids, envelope :: rest =>
    match materializeSnapshotCommand cluster envelope.command with
    | .error error =>
      .error (snapshotApplyError snapshotIndex (offset + 1) envelope.commandId error)
    | .ok (_, cluster) =>
      if envelope.commandId ∈ ids then
        .error (snapshotApplyError snapshotIndex (offset + 1) envelope.commandId
          (.backend "duplicate raft snapshot command id"))
      else stageCommands snapshotIndex (offset + 1) cluster (insert envelope.commandId ids) rest

def stageMetadataSnapshot (snapshot : RaftMetadataRuntimeExport) :
    Except CacheError StagedMetadataSnapshot := do
  validateSnapshotApplyContract snapshot
  let staged ← stageCommands snapshot.appliedIndex 0 { name := snapshot.clusterName } ∅
    snapshot.commands
  .ok
    { cluster := staged.1
      appliedIndex := snapshot.appliedIndex
      commands := snapshot.commands
      appliedCommandIds := staged.2 }

def raftMetadataSnapshotPayloadMagic : Bytes := utf8 "HCMETA01"

def raftMetadataSnapshotPayloadVersion : ℕ := 1

structure RaftMetadataSnapshotPayload where
  formatVersion : ℕ
  clusterName : String
  sourceRaftNodeId : ℕ
  appliedIndex : ℕ
  commands : List RaftMetadataCommandEnvelope
deriving DecidableEq

/-- How the payload of a snapshot is written. What was written is read back. -/
structure PayloadCodec where
  toVec : RaftMetadataSnapshotPayload → Except String Bytes
  fromSlice : Bytes → Except String RaftMetadataSnapshotPayload
  fromSlice_toVec : ∀ payload bytes, toVec payload = .ok bytes → fromSlice bytes = .ok payload

section

variable (json : PayloadCodec)

def encodeMetadataSnapshotPayload (snapshot : RaftMetadataRuntimeExport) :
    Except CacheError Bytes := do
  let bytes ← (json.toVec
    { formatVersion := raftMetadataSnapshotPayloadVersion
      clusterName := snapshot.clusterName
      sourceRaftNodeId := snapshot.raftNodeId
      appliedIndex := snapshot.appliedIndex
      commands := snapshot.commands }).mapError fun error ↦
        .backend ("failed to encode raft metadata snapshot: " ++ error)
  .ok (raftMetadataSnapshotPayloadMagic ++ bytes)

def decodeMetadataSnapshotPayload (bytes : Bytes) : Except CacheError RaftMetadataRuntimeExport :=
  if raftMetadataSnapshotPayloadMagic.isPrefixOf bytes then do
    let payload ← (json.fromSlice (bytes.drop raftMetadataSnapshotPayloadMagic.length)).mapError
      fun error ↦ .backend ("failed to decode raft metadata snapshot: " ++ error)
    if payload.formatVersion ≠ raftMetadataSnapshotPayloadVersion then
      .error (.backend ("unsupported raft metadata snapshot payload version " ++
        decimal payload.formatVersion))
    else
      .ok
        { clusterName := payload.clusterName
          raftNodeId := payload.sourceRaftNodeId
          appliedIndex := payload.appliedIndex
          commands := payload.commands }
  else .error (.backend "unsupported raft metadata snapshot payload")

/-- The snapshot of everything applied so far. The commit index, the term of the applied index and
the configuration are the raft library's. -/
def buildAppliedSnapshot (state : RaftRuntimeState) (raftNodeId commitIndex : ℕ)
    (term : Except CacheError ℕ) (confState : ConfState) : Except CacheError Snapshot :=
  if state.appliedIndex = 0 then
    .error (.backend "cannot compact raft metadata log before any entry is applied")
  else if commitIndex < state.appliedIndex then
    .error (.backend ("cannot compact raft metadata log at applied index " ++
      decimal state.appliedIndex ++ " past committed index " ++ decimal commitIndex))
  else do
    let term ← term
    let data ← encodeMetadataSnapshotPayload json (exportSnapshot state raftNodeId)
    .ok { data, metadata := { confState, index := state.appliedIndex, term } }

def publishStagedMetadataSnapshot (staged : StagedMetadataSnapshot) : RuntimeMethod Unit := do
  let state ← get
  if staged.cluster.name ≠ state.cluster.name then
    throw (.backend ("raft metadata snapshot cluster '" ++ staged.cluster.name ++
      "' does not match runtime cluster '" ++ state.cluster.name ++ "'"))
  else do
    modify fun state ↦
      { state with
        commands := staged.commands
        appliedCommandIds := staged.appliedCommandIds
        appliedIndex := staged.appliedIndex }
    let cluster ← liftExcept (state.cluster.replaceMembershipFrom staged.cluster)
    modify fun state ↦ { state with cluster }

def installMetadataSnapshot (snapshot : Snapshot) : RuntimeMethod Unit := do
  if snapshot.data = [] then pure ()
  else do
    let state ← get
    let «export» ← liftExcept (decodeMetadataSnapshotPayload json snapshot.data)
    if «export».appliedIndex ≠ snapshot.metadata.index then
      throw (.backend ("raft metadata snapshot payload index " ++ decimal «export».appliedIndex ++
        " does not match raft snapshot index " ++ decimal snapshot.metadata.index))
    else if «export».clusterName ≠ state.cluster.name then
      throw (.backend ("raft metadata snapshot cluster '" ++ «export».clusterName ++
        "' does not match runtime cluster '" ++ state.cluster.name ++ "'"))
    else do
      let staged ← liftExcept (stageMetadataSnapshot «export»)
      publishStagedMetadataSnapshot staged

/-! ### Restarting -/

/-- Apply a decoded command on restart. It is materialised before its id is looked up. -/
def applyRecoveredEnvelopeAt (envelope : RaftMetadataCommandEnvelope) (index : ℕ) :
    RuntimeMethod Unit := do
  let state ← get
  let cluster ← liftExcept (materializeCommittedCommand state.cluster envelope.command)
  modify fun state ↦
    { cluster
      commands := if envelope.commandId ∈ state.appliedCommandIds then state.commands
        else state.commands ++ [envelope]
      appliedCommandIds := insert envelope.commandId state.appliedCommandIds
      appliedIndex := max state.appliedIndex index }

/-- The entry is not replayed on restart. -/
def SkippedOnRestart (snapshotIndex recoveredAppliedIndex : ℕ) (entry : Entry) : Prop :=
  entry.index ≤ snapshotIndex ∨ recoveredAppliedIndex < entry.index ∨ entry.data = [] ∨
    entry.entryType ≠ .normal

instance (snapshotIndex recoveredAppliedIndex : ℕ) (entry : Entry) :
    Decidable (SkippedOnRestart snapshotIndex recoveredAppliedIndex entry) :=
  inferInstanceAs (Decidable (_ ∨ _))

def restoreEntry (snapshotIndex recoveredAppliedIndex : ℕ) (entry : Entry) : RuntimeMethod Unit :=
  if SkippedOnRestart snapshotIndex recoveredAppliedIndex entry then pure ()
  else do
    let envelope ← liftExcept (decodeEnvelope entry.data)
    applyRecoveredEnvelopeAt envelope entry.index

/-- Rebuild the state from the snapshot and the retained entries up to the applied index. -/
def restoreCommittedState (durableSnapshot : Snapshot) (entries : List Entry)
    (recoveredAppliedIndex : ℕ) : RuntimeMethod Unit := do
  modify fun state ↦ { state with commands := [], appliedCommandIds := ∅, appliedIndex := 0 }
  installMetadataSnapshot json durableSnapshot
  forM entries (restoreEntry durableSnapshot.metadata.index recoveredAppliedIndex)
  modify (·.reached recoveredAppliedIndex)

end

end HydraCache.Raft
