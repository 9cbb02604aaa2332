import HydraCache.Raft.Metadata

/-!
# Recovering the metadata runtime

A replica rebuilds its tables from the commands of a snapshot, and from the entries of the log after
it. Both take another way through the commands than the replica that applied the log, and both can
end elsewhere.

A snapshot replays every recorded command, those the log passed over included. `Installable` says
that the log did not pass over the command and that a leave was of a node in the table of its role.
If every command was installable when it was applied, the snapshot is staged with exactly the tables
it was taken from (`staged_of_run`); a second leave of a node that is gone is recorded like any
other command, and the snapshot is refused (`staged_refused`).

On restart the entries after the snapshot are materialised before their ids are looked up, so that a
command that was proposed twice is materialised twice. If the tables showed each such command when
it came again (`Settled`), the rebuilt state is the one the log made (`restore_of_run`); a join that
comes again after the node left brings the node back (`restore_differs`).
-/

set_option autoImplicit false

namespace HydraCache.Raft

open Lib Cluster List

/-! ### Staging what was applied -/

/-- The log does not pass over the command, and a leave is of a node in the table of its role. -/
def Replayable (cluster : InMemoryCluster) : RaftMetadataCommand → Prop
  | .memberUpsert node generation _ =>
    ∀ member ∈ findMaterialized cluster node .member, member.generation < generation
  | .clientUpsert node generation _ =>
    ∀ member ∈ findMaterialized cluster node .client, member.generation < generation
  | .nodeLeft node role _ => (findMaterialized cluster node role).isSome
  | .commitTopology _ _ => True

instance (cluster : InMemoryCluster) : DecidablePred (Replayable cluster)
  | .memberUpsert _ _ _ | .clientUpsert _ _ _ =>
    inferInstanceAs (Decidable (∀ member ∈ findMaterialized cluster _ _, member.generation < _))
  | .nodeLeft _ _ _ => inferInstanceAs (Decidable (_ = true))
  | .commitTopology _ _ => .isTrue trivial

/-- A snapshot replays the command as the log applied it: it stands under its own id, and it is
replayable. -/
def Installable (cluster : InMemoryCluster) (envelope : RaftMetadataCommandEnvelope) : Prop :=
  envelope.commandId = commandIdFor envelope.command ∧ Replayable cluster envelope.command

instance (cluster : InMemoryCluster) (envelope : RaftMetadataCommandEnvelope) :
    Decidable (Installable cluster envelope) := inferInstanceAs (Decidable (_ ∧ _))

variable {cluster next : InMemoryCluster} {command : RaftMetadataCommand}
  {envelope : RaftMetadataCommandEnvelope}

/-- Of the replayable commands, the log passes over those that do nothing anyway. -/
theorem eq_commitTopology_of_settled (h : Replayable cluster command)
    (hset : Settled cluster command) :
    ∃ epoch members, command = .commitTopology epoch members := by
  cases command with
  | memberUpsert | clientUpsert =>
    obtain ⟨member, hmem, hle⟩ := hset
    exact absurd (h member hmem) hle.not_gt
  | nodeLeft _ role =>
    obtain ⟨member, hmem⟩ := Option.isSome_iff_exists.mp h
    cases role with
    | «local» => cases hmem
    | client => exact absurd (hmem.symm.trans hset.2) (Option.some_ne_none _)
    | member => exact absurd (hmem.symm.trans hset.1) (Option.some_ne_none _)
  | commitTopology epoch members => exact ⟨epoch, members, rfl⟩

theorem materializeSnapshotCommand_of_replayable (h : Replayable cluster command)
    (hcom : materializeCommittedCommand cluster command = .ok next) :
    ∃ event, materializeSnapshotCommand cluster command = .ok (event, next) := by
  rw [materializeSnapshotCommand_eq_ok_iff]
  rcases materializeCommittedCommand_eq_ok_iff.mp hcom with
    ⟨hset, rfl⟩ | ⟨-, hstale, heffect⟩
  · obtain ⟨epoch, members, rfl⟩ := eq_commitTopology_of_settled h hset
    exact ⟨trivial, not_false, rfl⟩
  · refine ⟨?_, hstale, heffect⟩
    cases command with
    | nodeLeft => exact h
    | _ => trivial

variable {snapshotIndex : ℕ} {json : PayloadCodec} {name : String}
  {commands : List RaftMetadataCommandEnvelope} {offset : ℕ}

theorem validateCommands_eq_ok {seen : Finset String}
    (hids : ∀ envelope ∈ commands, envelope.commandId = commandIdFor envelope.command)
    (hnodup : (commands.map (·.commandId)).Nodup)
    (hseen : ∀ envelope ∈ commands, envelope.commandId ∉ seen) :
    validateCommands snapshotIndex offset seen commands = .ok () := by
  induction commands generalizing offset seen with
  | nil => rfl
  | cons first _ ih =>
    rw [map_cons, nodup_cons] at hnodup
    have hfirst := hids first mem_cons_self
    rw [validateCommands, if_neg (hfirst ▸ commandIdFor_ne_empty first.command),
      if_neg (not_not.mpr hfirst), if_neg (hseen first mem_cons_self)]
    refine ih (fun envelope h ↦ hids envelope (mem_cons_of_mem _ h)) hnodup.2 ?_
    intro envelope h hmem
    rcases Finset.mem_insert.mp hmem with heq | hmem
    · exact hnodup.1 (heq ▸ mem_map_of_mem h)
    · exact hseen envelope (mem_cons_of_mem _ h) hmem

theorem stageCommands_append {start : InMemoryCluster} {ids ids' : Finset String}
    {event : Option ClusterMembershipEvent}
    (h : stageCommands snapshotIndex offset start ids commands = .ok (cluster, ids'))
    (hmat : materializeSnapshotCommand cluster envelope.command = .ok (event, next))
    (hfresh : envelope.commandId ∉ ids') :
    stageCommands snapshotIndex offset start ids (commands ++ [envelope]) =
      .ok (next, insert envelope.commandId ids') := by
  induction commands generalizing offset start ids with
  | nil =>
    cases h
    simp only [nil_append, stageCommands, hmat, hfresh, if_false]
  | cons first _ ih =>
    rw [cons_append]
    unfold stageCommands at h ⊢
    cases hfirst : materializeSnapshotCommand start first.command with
    | error => simp [hfirst] at h
    | ok =>
      rw [hfirst] at h
      split_ifs at h ⊢ with hdup
      exact ih h

/-- The recorded commands stage the tables they were recorded from. -/
structure Exportable (state : RaftRuntimeState) : Prop where
  ids : ∀ envelope ∈ state.commands, envelope.commandId = commandIdFor envelope.command
  nodup : (state.commands.map (·.commandId)).Nodup
  recorded : ∀ envelope ∈ state.commands, envelope.commandId ∈ state.appliedCommandIds
  staged : ∀ snapshotIndex, stageCommands snapshotIndex 0 { name := state.cluster.name } ∅
    state.commands = .ok (state.cluster, (state.commands.map (·.commandId)).toFinset)
  counted : state.commands.length ≤ state.appliedIndex

variable {state state' : RaftRuntimeState}

theorem Exportable.reached (h : Exportable state) (index : ℕ) : Exportable (state.reached index) :=
  { h with counted := h.counted.trans (le_max_left _ _) }

theorem Exportable.noted (h : Exportable state) (envelope : RaftMetadataCommandEnvelope) :
    Exportable (state.noted envelope) :=
  { h with recorded := fun earlier hprev ↦ Finset.mem_insert_of_mem (h.recorded earlier hprev) }

theorem name_of_materializeCommittedCommand
    (h : materializeCommittedCommand cluster command = .ok next) : next.name = cluster.name := by
  rcases materializeCommittedCommand_eq_ok_iff.mp h with ⟨-, rfl⟩ | ⟨-, -, rfl⟩
  · rfl
  · cases command with
    | nodeLeft node =>
      rw [commandEffect]
      cases cluster.admitted node <;> rfl
    | _ => rfl

theorem insert_commandId (commands : List RaftMetadataCommandEnvelope)
    (envelope : RaftMetadataCommandEnvelope) :
    insert envelope.commandId (commands.map (·.commandId)).toFinset =
      ((commands ++ [envelope]).map (·.commandId)).toFinset := by
  ext id
  rw [Finset.mem_insert, map_append, mem_toFinset, mem_toFinset, mem_append, or_comm]
  exact or_congr_right mem_singleton.symm

theorem Exportable.recorded_noted (h : Exportable state)
    (hid : envelope.commandId ∉ state.appliedCommandIds)
    (hinst : Installable state.cluster envelope)
    (hmat : materializeCommittedCommand state.cluster envelope.command = .ok next) :
    Exportable ((state.noted envelope).recorded envelope next) := by
  have hfresh : envelope.commandId ∉ state.commands.map (·.commandId) := by
    intro hmem
    obtain ⟨earlier, hprev, heq⟩ := mem_map.mp hmem
    exact hid (heq ▸ h.recorded earlier hprev)
  obtain ⟨event, hsnap⟩ := materializeSnapshotCommand_of_replayable hinst.2 hmat
  constructor
  · exact forall_mem_append.mpr ⟨h.ids, forall_mem_singleton.mpr hinst.1⟩
  · change ((state.commands ++ [envelope]).map _).Nodup
    rw [map_append]
    exact nodup_append_comm.mp (nodup_cons.mpr ⟨hfresh, h.nodup⟩)
  · refine forall_mem_append.mpr
      ⟨fun other hother ↦ ?_, forall_mem_singleton.mpr (Finset.mem_insert_self _ _)⟩
    exact Finset.mem_insert_of_mem (h.recorded other hother)
  · intro snapshotIndex
    have hstaged := stageCommands_append (h.staged snapshotIndex) hsnap (by rwa [mem_toFinset])
    change stageCommands snapshotIndex 0 { name := next.name } ∅ (state.commands ++ [envelope]) = _
    rw [name_of_materializeCommittedCommand hmat, hstaged, insert_commandId]
    rfl
  · change (state.commands ++ [envelope]).length ≤ _
    rw [length_append]
    exact le_max_right _ _

theorem stageMetadataSnapshot_of_exportable (h : Exportable state) (raftNodeId : ℕ) :
    stageMetadataSnapshot (exportSnapshot state raftNodeId) =
      .ok
        { cluster := state.cluster
          appliedIndex := state.appliedIndex
          commands := state.commands
          appliedCommandIds := (state.commands.map (·.commandId)).toFinset } := by
  have hvalid : validateSnapshotApplyContract (exportSnapshot state raftNodeId) = .ok () := by
    have hcnt : ¬ (exportSnapshot state raftNodeId).appliedIndex <
        (exportSnapshot state raftNodeId).commands.length := h.counted.not_gt
    rw [validateSnapshotApplyContract, if_neg hcnt]
    exact validateCommands_eq_ok h.ids h.nodup fun _ _ ↦ Finset.notMem_empty _
  rw [stageMetadataSnapshot, hvalid, ok_bind]
  change (stageCommands _ 0 { name := state.cluster.name } ∅ state.commands >>= _) = _
  rw [h.staged, ok_bind]
  rfl

/-- One entry, whether it can be applied or not. -/
def applyAny (confChange : Entry → Except CacheError Unit) (state : RaftRuntimeState)
    (entry : Entry) :
    Option RaftRuntimeState :=
  some ((applyCommittedEntry confChange entry).run.run state).2

/-- A command that the entry adds is installable. -/
def AddsInstallable (state : RaftRuntimeState) (entry : Entry) : Prop :=
  ∀ envelope ∈ envelopeOf entry, envelope.commandId ∉ state.appliedCommandIds →
    Installable state.cluster envelope

instance (state : RaftRuntimeState) (entry : Entry) : Decidable (AddsInstallable state entry) :=
  inferInstanceAs (Decidable (∀ envelope ∈ envelopeOf entry, _ → _))

variable {confChange : Entry → Except CacheError Unit} {entry : Entry} {term : Except CacheError ℕ}
  {raftNodeId commitIndex : ℕ} {confState : ConfState} {snapshot : Snapshot}

theorem exportable_applyAny (h : Exportable state) (hentry : AddsInstallable state entry)
    (happly : applyAny confChange state entry = some state') : Exportable state' := by
  cases happly
  rcases run_applyCommittedEntry_cases confChange entry state with
    ⟨-, outcome, hrun, -⟩ | ⟨envelope, henv, hcases⟩
  · rw [hrun]
    exact h.reached entry.index
  rcases hcases with ⟨-, hrun⟩ | ⟨hid, ⟨error, -, hrun⟩ | ⟨cluster, hok, hrun⟩⟩
  · rw [hrun]
    exact h.reached entry.index
  · rw [hrun]
    exact (h.reached ..).noted envelope
  · rw [hrun]
    exact (h.reached ..).recorded_noted hid (hentry envelope henv hid) hok

theorem exportable_initial (name : String) : Exportable { cluster := { name } } where
  ids _ h := absurd h not_mem_nil
  nodup := .nil
  recorded _ h := absurd h not_mem_nil
  staged _ := rfl
  counted := le_rfl

theorem decodeMetadataSnapshotPayload_of_encode {snapshot : RaftMetadataRuntimeExport}
    {bytes : Bytes} (h : encodeMetadataSnapshotPayload json snapshot = .ok bytes) :
    decodeMetadataSnapshotPayload json bytes = .ok snapshot := by
  obtain ⟨body, hbody, hbytes⟩ := bind_eq_ok_iff.mp h
  cases hbytes
  generalize hwrite : json.toVec _ = written at hbody
  cases written with
  | error => cases hbody
  | ok =>
    cases hbody
    rw [decodeMetadataSnapshotPayload, if_pos (List.isPrefixOf_iff_prefix.mpr (prefix_append _ _)),
      drop_left, json.fromSlice_toVec _ _ hwrite]
    rfl

theorem buildAppliedSnapshot_eq_ok
    (h : buildAppliedSnapshot json state raftNodeId commitIndex term confState = .ok snapshot) :
    decodeMetadataSnapshotPayload json snapshot.data = .ok (exportSnapshot state raftNodeId) ∧
      snapshot.metadata.index = state.appliedIndex := by
  unfold buildAppliedSnapshot at h
  split_ifs at h with hzero hcom
  simp only [bind_eq_ok_iff] at h
  obtain ⟨termFound, -, data, hdata, hsnap⟩ := h
  cases hsnap
  exact ⟨decodeMetadataSnapshotPayload_of_encode hdata, rfl⟩

/-- Assumes: a sequence of entries applied to a new runtime, each command among them installable
when it is added. What the runtime exports is staged with the members, the clients and the epoch the
runtime has, and what it builds as a raft snapshot decodes to that export. -/
theorem staged_of_run {name : String} {entries : List Entry} {state : RaftRuntimeState}
    (halong : Along (applyAny confChange) AddsInstallable { cluster := { name } } entries)
    (hrun : run (applyAny confChange) { cluster := { name } } entries = some state)
    (raftNodeId : ℕ) :
    (∃ staged, stageMetadataSnapshot (exportSnapshot state raftNodeId) = .ok staged ∧
      staged.cluster.members = state.cluster.members ∧
      staged.cluster.clients = state.cluster.clients ∧
      staged.cluster.epoch = state.cluster.epoch) ∧
    ∀ json commitIndex term confState snapshot,
      buildAppliedSnapshot json state raftNodeId commitIndex term confState = .ok snapshot →
        decodeMetadataSnapshotPayload json snapshot.data =
          .ok (exportSnapshot state raftNodeId) := by
  have h : Exportable state := run_invariant
    (fun _ _ _ hentry hs happly ↦ exportable_applyAny hs hentry happly) (exportable_initial name)
    halong hrun
  refine ⟨⟨_, stageMetadataSnapshot_of_exportable h .., rfl, rfl, rfl⟩, ?_⟩
  intro json commitIndex term confState snapshot hbuild
  exact (buildAppliedSnapshot_eq_ok hbuild).1

/-- A node joins and leaves. -/
def joinThenLeave : List Entry :=
  [commandEntry 1 (.memberUpsert "a" 1 1), commandEntry 2 (.nodeLeft "a" .member 2)]

theorem staged_joinThenLeave :
    ∃ state staged,
      run (applyAny fun _ ↦ .ok ()) { cluster := { name := "orders" } } joinThenLeave =
        some state ∧
      state.commands.length = 2 ∧ state.cluster.epoch = 2 ∧
      stageMetadataSnapshot (exportSnapshot state 1) = .ok staged ∧
      staged.cluster.epoch = state.cluster.epoch := by
  obtain ⟨state, hrun, hcmds, hstateEpoch⟩ : ∃ state ∈ run (applyAny fun _ ↦ .ok ())
      { cluster := { name := "orders" } } joinThenLeave,
      state.commands.length = 2 ∧ state.cluster.epoch = 2 := by decide +kernel
  obtain ⟨⟨staged, hstaged, -, -, hepoch⟩, -⟩ := staged_of_run (by decide +kernel) hrun 1
  exact ⟨state, staged, hrun, hcmds, hstateEpoch, hstaged, hepoch⟩

/-- A second leave of a node that is gone, from a replica that saw another epoch, is applied like
any other command, and the snapshot is refused for it. -/
theorem staged_refused :
    ∃ state, run (applyAny fun _ ↦ .ok ()) { cluster := { name := "orders" } }
        (joinThenLeave ++ [commandEntry 3 (.nodeLeft "a" .member 3)]) = some state ∧
      (stageMetadataSnapshot (exportSnapshot state 1)).map (·.commands) = .error (.backend
        ("raft snapshot apply error: snapshot_index=3, tail_index=3, command_id=node-left:a:3: " ++
          "cache backend error: node-left references absent Member 'a'")) := by
  exact Option.map_eq_some_iff.mp (by decide +kernel)

/-! ### Restarting where the log was applied -/

/-- The state after the entries of the log up to an index were applied, all with success. -/
def liveAfter (confChange : Entry → Except CacheError Unit) (name : String) (log : List Entry)
    (index : ℕ) : Option RaftRuntimeState :=
  run (fallibleStep (applyCommittedEntry confChange)) { cluster := { name } }
    (log.filter (·.index ≤ index))

/-- The snapshot was taken from the runtime once it had applied the log up to the snapshot's index,
or none was taken. -/
def StoredSnapshot (json : PayloadCodec) (confChange : Entry → Except CacheError Unit)
    (name : String) (log : List Entry) (snapshot : Snapshot) : Prop :=
  snapshot = {} ∨
    ∃ state raftNodeId commitIndex term confState,
      liveAfter confChange name log snapshot.metadata.index = some state ∧
        buildAppliedSnapshot json state raftNodeId commitIndex term confState = .ok snapshot

/-- A command of the entry that was applied before is one the tables show. -/
def RepeatsSettled (state : RaftRuntimeState) (entry : Entry) : Prop :=
  ∀ envelope ∈ envelopeOf entry, envelope.commandId ∈ state.appliedCommandIds →
    Settled state.cluster envelope.command

instance (state : RaftRuntimeState) (entry : Entry) : Decidable (RepeatsSettled state entry) :=
  inferInstanceAs (Decidable (∀ envelope ∈ envelopeOf entry, _ → _))

/-- Up to the snapshot, a command that the entry adds is installable; after it, a command that comes
again is one the tables show. -/
def Recoverable (snapshotIndex : ℕ) (state : RaftRuntimeState) (entry : Entry) : Prop :=
  (entry.index ≤ snapshotIndex → AddsInstallable state entry) ∧
    (snapshotIndex < entry.index → RepeatsSettled state entry)

instance (snapshotIndex : ℕ) (state : RaftRuntimeState) (entry : Entry) :
    Decidable (Recoverable snapshotIndex state entry) :=
  inferInstanceAs (Decidable ((_ → _) ∧ (_ → _)))

/-- The two states hold the same tables, commands and ids. -/
structure Agrees (live restored : RaftRuntimeState) : Prop where
  cluster : restored.cluster = live.cluster
  commands : restored.commands = live.commands
  ids : restored.appliedCommandIds = live.appliedCommandIds

variable {live live' restored : RaftRuntimeState} {result : Unit} {log : List Entry} {applied : ℕ}
  {index : ℕ}

/-- Replaying an entry after the snapshot does what applying it did. -/
theorem restoreEntry_agrees (h : Agrees live restored)
    (hlive : Returns (applyCommittedEntry confChange entry) live result live')
    (habove : snapshotIndex < entry.index) (happ : entry.index ≤ applied)
    (hset : RepeatsSettled live entry) :
    ∃ restored', Returns (restoreEntry snapshotIndex applied entry) restored () restored' ∧
      Agrees live' restored' := by
  unfold restoreEntry
  rcases run_applyCommittedEntry_cases confChange entry live with
    ⟨-, outcome, hrun, hskip⟩ | ⟨envelope, henv, hcases⟩
  · rw [Returns, hrun] at hlive
    cases hlive
    rw [if_pos (.inr (.inr (hskip rfl)))]
    exact ⟨restored, returns_pure_iff.mpr ⟨rfl, rfl⟩, { h with }⟩
  · obtain ⟨hkept, hdec⟩ := envelopeOf_eq_some_iff.mp henv
    have hreplayed : ¬ SkippedOnRestart snapshotIndex applied entry := by
      rintro (hle | hlt | hskip)
      · exact hle.not_gt habove
      · exact happ.not_gt hlt
      · exact hkept hskip
    rw [if_neg hreplayed, hdec]
    simp only [applyRecoveredEnvelopeAt, returns_liftExcept_bind_iff, returns_get_bind_iff,
      returns_modify_iff, Except.ok.injEq, exists_eq_left', h.cluster]
    rcases hcases with ⟨hid, hrun⟩ | ⟨hid, ⟨error, -, hrun⟩ | ⟨cluster, hok, hrun⟩⟩
    · -- a command that came before: the tables show it, so nothing is materialised
      rw [Returns, hrun] at hlive
      cases hlive
      have hsame : materializeCommittedCommand live.cluster envelope.command = .ok live.cluster :=
        materializeCommittedCommand_eq_ok_iff.mpr (.inl ⟨hset envelope henv hid, rfl⟩)
      rw [← h.ids] at hid
      refine ⟨_, ⟨_, hsame, rfl⟩, rfl, ?_, ?_⟩
      · exact (if_pos hid).trans h.commands
      · exact (Finset.insert_eq_of_mem hid).trans h.ids
    · rw [Returns, hrun] at hlive
      cases hlive
    · rw [Returns, hrun] at hlive
      cases hlive
      rw [← h.ids] at hid
      refine ⟨_, ⟨_, hok, rfl⟩, rfl, ?_, ?_⟩
      · refine (if_neg hid).trans ?_
        rw [h.commands]
        rfl
      · rw [h.ids]
        rfl

/-- Replaying the retained entries does what applying the entries between the snapshot and the
applied index did. -/
theorem forM_restoreEntry_agrees {retained : List Entry} (h : Agrees live restored)
    (hlive : run (fallibleStep (applyCommittedEntry confChange)) live
      (retained.filter fun entry ↦ snapshotIndex < entry.index ∧ entry.index ≤ applied) =
      some live')
    (halong : Along (fallibleStep (applyCommittedEntry confChange)) RepeatsSettled live
      (retained.filter fun entry ↦ snapshotIndex < entry.index ∧ entry.index ≤ applied)) :
    ∃ restored', Returns (forM retained (restoreEntry snapshotIndex applied)) restored
      () restored' ∧ Agrees live' restored' := by
  induction retained generalizing live restored with
  | nil =>
    cases hlive
    exact ⟨restored, returns_pure_iff.mpr ⟨rfl, rfl⟩, h⟩
  | cons entry _ ih =>
    rw [forM_cons]
    by_cases hbetween : snapshotIndex < entry.index ∧ entry.index ≤ applied
    · rw [filter_cons, if_pos (decide_eq_true hbetween)] at hlive halong
      obtain ⟨middle, hstep, hrest⟩ := run_cons_eq_some.mp hlive
      obtain ⟨result, hret⟩ := fallibleStep_eq_some_iff.mp hstep
      obtain ⟨restored₁, hfirst, hagrees⟩ :=
        restoreEntry_agrees h hret hbetween.1 hbetween.2 halong.1
      obtain ⟨restored', hreturns', hagrees'⟩ := ih hagrees hrest (halong.2 middle hstep)
      exact ⟨restored', returns_bind_iff.mpr ⟨(), restored₁, hfirst, hreturns'⟩, hagrees'⟩
    · rw [filter_cons, if_neg (by rwa [decide_eq_true_iff])] at hlive halong
      obtain ⟨restored', hreturns', hagrees'⟩ := ih h hlive halong
      refine ⟨restored', returns_bind_iff.mpr ⟨(), restored, ?_, hreturns'⟩, hagrees'⟩
      have hskipped : SkippedOnRestart snapshotIndex applied entry := by
        rcases not_and_or.mp hbetween with hle | hlt
        · exact .inl (Nat.le_of_not_lt hle)
        · exact .inr (.inl (Nat.lt_of_not_le hlt))
      rw [restoreEntry, if_pos hskipped]
      exact returns_pure_iff.mpr ⟨rfl, rfl⟩

/-- A runtime of the name whose applied ids are those of the recorded commands. -/
structure Recording (name : String) (state : RaftRuntimeState) : Prop where
  name : state.cluster.name = name
  ids : state.appliedCommandIds = (state.commands.map (·.commandId)).toFinset

theorem recording_applyCommittedEntry (h : Recording name live)
    (hlive : Returns (applyCommittedEntry confChange entry) live result live') :
    Recording name live' := by
  rcases run_applyCommittedEntry_cases confChange entry live with
    ⟨-, outcome, hrun, -⟩
      | ⟨envelope, -, ⟨-, hrun⟩ | ⟨-, ⟨error, -, hrun⟩ | ⟨cluster, hok, hrun⟩⟩⟩ <;>
    rw [Returns, hrun] at hlive <;> cases hlive
  · exact ⟨h.name, h.ids⟩
  · exact ⟨h.name, h.ids⟩
  · refine ⟨(name_of_materializeCommittedCommand hok).trans h.name, ?_⟩
    exact (congrArg _ h.ids).trans (insert_commandId live.commands envelope)

/-- Assumes: a snapshot built from a state whose commands stage its tables. Installing it in a new
runtime gives that state. -/
theorem installMetadataSnapshot_agrees (hexportable : Exportable state)
    (hrec : Recording name state)
    (hbuild : buildAppliedSnapshot json state raftNodeId commitIndex term confState =
      .ok snapshot) :
    ∃ restored, Returns (installMetadataSnapshot json snapshot) { cluster := { name } }
      () restored ∧ Agrees state restored := by
  obtain ⟨hdec, hindex⟩ := buildAppliedSnapshot_eq_ok hbuild
  have hdata : snapshot.data ≠ [] := by
    intro hnil
    rw [hnil] at hdec
    cases hdec
  have hsameIndex : ¬ (exportSnapshot state raftNodeId).appliedIndex ≠ snapshot.metadata.index :=
    not_not.mpr hindex.symm
  have hsameName : ¬ (exportSnapshot state raftNodeId).clusterName ≠ name :=
    not_not.mpr hrec.name
  have hpub : ¬ state.cluster.name ≠ name := not_not.mpr hrec.name
  have hrepl : InMemoryCluster.replaceMembershipFrom { name } state.cluster =
      .ok state.cluster := by
    rw [InMemoryCluster.replaceMembershipFrom, if_pos hrec.name.symm, ← hrec.name]
  rw [installMetadataSnapshot, if_neg hdata]
  simp only [returns_get_bind_iff, returns_liftExcept_bind_iff, hdec, Except.ok.injEq,
    exists_eq_left', if_neg hsameIndex, if_neg hsameName,
    stageMetadataSnapshot_of_exportable hexportable, publishStagedMetadataSnapshot,
    if_neg hpub, returns_modify_bind_iff, returns_modify_iff, hrepl, exists_eq_left]
  exact ⟨rfl, rfl, hrec.ids.symm⟩

theorem recording_liveAfter
    (h : liveAfter confChange name log index = some live) : Recording name live := by
  refine invariant_of_run (fun s entry s' hs hstep ↦ ?_) ⟨rfl, rfl⟩ h
  obtain ⟨result, hret⟩ := fallibleStep_eq_some_iff.mp hstep
  exact recording_applyCommittedEntry hs hret

theorem exportable_liveAfter
    (halong : Along (fallibleStep (applyCommittedEntry confChange)) AddsInstallable
      { cluster := { name } } (log.filter (·.index ≤ index)))
    (h : liveAfter confChange name log index = some live) : Exportable live := by
  refine run_invariant ?_ (exportable_initial name) halong h
  intro s entry s' hentry hs hstep
  obtain ⟨result, hret⟩ := fallibleStep_eq_some_iff.mp hstep
  exact exportable_applyAny hs hentry (by rw [applyAny, hret])

/-- Assumes: a log of ascending indexes, applied with success up to the applied index, and each of
its entries recoverable when it was applied; a snapshot stored on the way; and retained entries that
are those of the log between the snapshot and the applied index. Restarting succeeds, with the
members, the clients, the epoch, the commands and the applied ids of the runtime that applied the
log. -/
theorem restore_of_run {json : PayloadCodec} {name : String} {log retained : List Entry}
    {snapshot : Snapshot} {applied : ℕ}
    (hincreasing : log.Pairwise fun entry other ↦ entry.index < other.index)
    (hpositive : ∀ entry ∈ log, 0 < entry.index)
    (hsnapshot : StoredSnapshot json confChange name log snapshot)
    (hle : snapshot.metadata.index ≤ applied)
    (hretained : retained.filter (fun entry ↦ snapshot.metadata.index < entry.index ∧
      entry.index ≤ applied) = log.filter fun entry ↦ snapshot.metadata.index < entry.index ∧
      entry.index ≤ applied) (hlive : liveAfter confChange name log applied = some live)
    (halong : Along (fallibleStep (applyCommittedEntry confChange))
      (Recoverable snapshot.metadata.index) { cluster := { name } }
      (log.filter (·.index ≤ applied))) :
    ∃ restored, Returns (restoreCommittedState json snapshot retained applied)
        { cluster := { name } } () restored ∧
      restored.cluster.members = live.cluster.members ∧
      restored.cluster.clients = live.cluster.clients ∧
      restored.cluster.epoch = live.cluster.epoch ∧
      restored.commands = live.commands ∧
      restored.appliedCommandIds = live.appliedCommandIds := by
  unfold liveAfter at hlive
  rw [filter_le_eq_append hincreasing hle] at hlive halong
  obtain ⟨middle, hpre, hafter⟩ := run_append_eq_some.mp hlive
  obtain ⟨halongBefore, halongAfter⟩ := along_append_iff.mp halong
  -- the snapshot brings back the state it was taken from
  have hinstall : ∃ installed,
    Returns (installMetadataSnapshot json snapshot) { cluster := { name } } ()
      installed ∧ Agrees middle installed := by
    rcases hsnapshot with rfl | ⟨state, raftNodeId, commitIndex, term, confState, hstate, hbuild⟩
    · have hnone : log.filter (·.index ≤ ({} : Snapshot).metadata.index) = [] := by
        rw [filter_eq_nil_iff]
        intro entry hentry
        rw [decide_eq_true_iff]
        exact (hpositive entry hentry).not_ge
      rw [hnone] at hpre
      cases hpre
      exact ⟨_, returns_pure_iff.mpr ⟨rfl, rfl⟩, rfl, rfl, rfl⟩
    · cases hstate.symm.trans hpre
      refine installMetadataSnapshot_agrees ?_ (recording_liveAfter hpre) hbuild
      refine exportable_liveAfter (halongBefore.imp fun _ entry hentry hC ↦ hC.1 ?_) hpre
      exact of_decide_eq_true (mem_filter.mp hentry).2
  obtain ⟨installed, hinst, hagrees⟩ := hinstall
  rw [← hretained] at hafter halongAfter
  have hset := (halongAfter middle hpre).imp fun _ entry hentry hC ↦
    hC.2 (of_decide_eq_true (mem_filter.mp hentry).2).1
  obtain ⟨restored, hrest, hsame⟩ := forM_restoreEntry_agrees hagrees hafter hset
  refine ⟨restored.reached applied, ?_, congrArg InMemoryCluster.members hsame.cluster,
    congrArg InMemoryCluster.clients hsame.cluster, congrArg InMemoryCluster.epoch hsame.cluster,
    hsame.commands, hsame.ids⟩
  rw [restoreCommittedState, returns_modify_bind_iff]
  refine returns_bind_iff.mpr ⟨(), installed, hinst, ?_⟩
  exact returns_bind_iff.mpr ⟨(), restored, hrest, returns_modify_iff.mpr rfl⟩

/-! A node joins and the snapshot is taken; after it a second node joins,
  and its join comes twice. -/

def joinTwice : List Entry :=
  [commandEntry 1 (.memberUpsert "a" 1 1), commandEntry 2 (.memberUpsert "b" 1 2),
    commandEntry 3 (.memberUpsert "b" 1 2)]

def joinedPayload : RaftMetadataSnapshotPayload where
  formatVersion := 1
  clusterName := "orders"
  sourceRaftNodeId := 1
  appliedIndex := 1
  commands := [(RaftMetadataCommand.memberUpsert "a" 1 1).envelope]

/-- The payload as JSON. -/
def joinedJson : Bytes :=
  utf8 ("\x7b\"format_version\":1,\"cluster_name\":\"orders\",\"source_raft_node_id\":1," ++
    "\"applied_index\":1,\"commands\":[\x7b\"command_id\":\"member-upsert:a:1\",\"command\":" ++
    "\x7b\"MemberUpsert\":\x7b\"node_id\":\"a\",\"generation\":1,\"epoch\":1\x7d\x7d\x7d]\x7d")

/-- A codec for that payload alone. -/
def joinedCodec : PayloadCodec where
  toVec payload := if payload = joinedPayload then .ok joinedJson else .error "unknown"
  fromSlice bytes := if bytes = joinedJson then .ok joinedPayload else .error "unknown"
  fromSlice_toVec payload bytes h := by
    split_ifs at h with hpayload
    cases h
    rw [if_pos rfl, hpayload]

def joinedSnapshot : Snapshot where
  data := raftMetadataSnapshotPayloadMagic ++ joinedJson
  metadata := { index := 1, term := 1 }

theorem storedSnapshot_joinedSnapshot :
    StoredSnapshot joinedCodec (fun _ ↦ .ok ()) "orders" joinTwice joinedSnapshot := by
  obtain ⟨state, hstate, hindex, hexport⟩ :
    ∃ state ∈ liveAfter (fun _ ↦ .ok ()) "orders" joinTwice 1,
      state.appliedIndex = 1 ∧
        exportSnapshot state 1 = ⟨"orders", 1, 1, joinedPayload.commands⟩ := by
    decide +kernel
  refine .inr ⟨state, 1, 3, .ok 1, {}, hstate, ?_⟩
  have hpay : encodeMetadataSnapshotPayload joinedCodec (exportSnapshot state 1) =
      .ok (raftMetadataSnapshotPayloadMagic ++ joinedJson) := by
    rw [hexport]
    rfl
  rw [buildAppliedSnapshot, hindex, hpay]
  rfl

theorem restore_joinTwice :
    ∃ restored, Returns (restoreCommittedState joinedCodec joinedSnapshot (joinTwice.drop 1) 3)
        { cluster := { name := "orders" } } () restored ∧
      restored.cluster.epoch = 2 ∧ restored.commands.length = 2 ∧
      (restored.cluster.members.lookup "b").isSome := by
  have hkept : (joinTwice.drop 1).filter
        (fun entry ↦ joinedSnapshot.metadata.index < entry.index ∧ entry.index ≤ 3) =
      joinTwice.filter fun entry ↦ joinedSnapshot.metadata.index < entry.index ∧ entry.index ≤ 3 :=
    rfl
  obtain ⟨live, hlive, hvalue⟩ : ∃ live ∈ liveAfter (fun _ ↦ .ok ()) "orders" joinTwice 3,
      live.cluster.epoch = 2 ∧ live.commands.length = 2 ∧
        (live.cluster.members.lookup "b").isSome := by decide +kernel
  obtain ⟨restored, hrest, hmems, -, hepoch, hcmds, -⟩ := restore_of_run (by decide)
    (by decide) storedSnapshot_joinedSnapshot (by decide) hkept hlive (by decide +kernel)
  refine ⟨restored, hrest, ?_⟩
  rwa [hepoch, hcmds, hmems]

/-- A join that is committed again after the node left is passed over by the runtime that applies
the log, and brings the node back on restart. -/
theorem restore_differs :
    (liveAfter (fun _ ↦ .ok ()) "orders" (joinThenLeave ++ [commandEntry 3 (.memberUpsert "a" 1 1)])
        3).map (fun live ↦ (live.cluster.members.lookup "a").isSome) = some false ∧
      ((restoreCommittedState joinedCodec {}
        (joinThenLeave ++ [commandEntry 3 (.memberUpsert "a" 1 1)])
        3).run.run { cluster := { name := "orders" } }).2.cluster.members.lookup "a" =
          some { nodeId := "a", generation := 1, role := .member, epoch := 3 } := by
  exact ⟨by decide +kernel, by decide +kernel⟩

end HydraCache.Raft
