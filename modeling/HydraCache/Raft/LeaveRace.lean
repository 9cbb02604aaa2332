import HydraCache.Raft.ControlPlane

/-!
# Joins and leaves in flight

Every replica proposes from what it has applied so far, and the proposals are committed in any
order. The system here holds the committed log and the proposals in flight. A call is made at a
replica that has applied some number of the entries, and the command it proposes is the one of the
control plane (`control_of_proposed`); a commit takes any proposal in flight to the end of the log.

A leave is checked against the tables of the replica that proposes it. The entry it becomes has no
generation: when it is applied, whatever stands under the node's name is removed. So a leave can
remove a node that joined again in the meantime (`leave_removes_newer`). `leave_spares_newer` gives
the runs in which no leave removes an incarnation above the generation it was checked against: those
in which the replica that proposed the leave held no such incarnation, in the table that is not
checked either, and in which no such join was committed between its view of the log and the leave
(`Undisturbed`).
-/

set_option autoImplicit false

namespace HydraCache.Raft

open Lib Cluster RaftMetadataCommand List Option

/-! ### The system -/

section

variable (state : RaftRuntimeState)

/-- A command that was not applied before. -/
def unlessApplied (command : RaftMetadataCommand) : Option RaftMetadataCommand :=
  if commandIdFor command ∈ state.appliedCommandIds then none else some command

/-- The command a call hands to the raft library, unless the call is refused or returns at once. -/
def proposed : ControlCall → Option RaftMetadataCommand
  | .joinMember candidate =>
    let candidate := { candidate with role := .member }
    if rejectStaleCandidate state.cluster candidate = .ok () then
      unlessApplied state (.memberUpsert candidate.nodeId candidate.generation
        (predictedMemberEpoch state.cluster candidate))
    else none
  | .joinClient candidate =>
    let candidate := { candidate with role := .client }
    if rejectStaleCandidate state.cluster candidate = .ok () then
      unlessApplied state (.clientUpsert candidate.nodeId candidate.generation state.cluster.epoch)
    else none
  | .leave node generation =>
    (predictedLeaveEpoch state.cluster node).bind fun predicted ↦
      if state.cluster.validateGeneration node generation = .ok () then
        unlessApplied state (.nodeLeft node predicted.1 predicted.2)
      else none

end

/-- A command in flight, with the generation the call was checked with and the number of entries
that the replica had applied. -/
structure Proposal where
  command : RaftMetadataCommand
  generation : ℕ
  seen : ℕ
deriving DecidableEq

structure Race where
  log : List (Entry × Proposal) := []
  inFlight : List Proposal := []

inductive RaceEvent where
  | call (seen : ℕ) (call : ControlCall)
  | commit (position : ℕ)

def ControlCall.generation : ControlCall → ℕ
  | .joinMember candidate | .joinClient candidate => candidate.generation
  | .leave _ generation => generation

section

variable (confChange : Entry → Except CacheError Unit) (name : String)

/-- The state of a replica once it has applied the entries, those that fail included. -/
def replicaAfter (entries : List Entry) : RaftRuntimeState :=
  entries.foldl (fun state entry ↦ ((applyCommittedEntry confChange entry).run.run state).2)
    { cluster := { name } }

/-- The state of a replica that has applied the first entries of the log. -/
def Race.replica (race : Race) (seen : ℕ) : RaftRuntimeState :=
  replicaAfter confChange name ((race.log.take seen).map Prod.fst)

def raceStep (race : Race) : RaceEvent → Option Race
  | .call seen call =>
    if seen ≤ race.log.length then
      (proposed (race.replica confChange name seen) call).map fun command ↦
        { race with
          inFlight := race.inFlight ++ [{ command, generation := call.generation, seen }] }
    else none
  | .commit position =>
    race.inFlight[position]?.map fun proposal ↦
      { log := race.log ++ [(commandEntry (race.log.length + 1) proposal.command, proposal)]
        inFlight := race.inFlight.eraseIdx position }

end

/-- The node of a leave. -/
def RaftMetadataCommand.leaver : RaftMetadataCommand → Option NodeId
  | .nodeLeft node _ _ => some node
  | _ => none

/-! ### What a call proposes -/

variable {state : RaftRuntimeState} {command : RaftMetadataCommand} {call : ControlCall}
  {error : CacheError} {raw : RawNode}

theorem unlessApplied_eq_some_iff {command' : RaftMetadataCommand} :
    unlessApplied state command = some command' ↔
      commandIdFor command ∉ state.appliedCommandIds ∧ command' = command := by
  unfold unlessApplied
  split_ifs with h <;> simp [h, eq_comm]

theorem run_commitCommand_of_error (hnew : command.envelope.commandId ∉ state.appliedCommandIds)
    (herror : raw.propose command.envelope = .error error) :
    (commitCommand raw command.envelope).run.run state = (.error error, state) := by
  rw [commitCommand, run_bind, run_get]
  simp only [if_neg hnew, run_bind, run_liftExcept, herror]

/-- Assumes: a call that proposes a command, and a raft library that refuses that command. The call
fails with the error of the library, so the command is what it handed over. -/
theorem control_of_proposed (h : proposed state call = some command)
    (herror : raw.propose command.envelope = .error error) :
    (control raw call).run.run state = (.error error, state) := by
  cases call with
  | joinMember | joinClient =>
    simp only [proposed] at h
    split_ifs at h with hfresh
    obtain ⟨hnew, rfl⟩ := unlessApplied_eq_some_iff.mp h
    simp only [control, joinMember, joinClient, commitUpsert, run_bind, run_get,
      run_liftExcept, hfresh, run_commitCommand_of_error hnew herror]
  | leave =>
    obtain ⟨⟨role, epoch⟩, hpred, h⟩ := bind_eq_some_iff.mp h
    split_ifs at h with hvalid
    obtain ⟨hnew, rfl⟩ := unlessApplied_eq_some_iff.mp h
    simp only [control, leave, commitLeave, run_bind, run_get, run_liftExcept, hpred, hvalid,
      run_commitCommand_of_error hnew herror]

/-! ### No incarnation above a generation -/

/-- The entries of a node in the two tables. -/
def incarnations (cluster : InMemoryCluster) (node : NodeId) : List ClusterMember :=
  (cluster.members.lookup node).toList ++ (cluster.clients.lookup node).toList

/-- No incarnation of the node in the tables is above the generation. -/
def NoneAbove (cluster : InMemoryCluster) (node : NodeId) (generation : ℕ) : Prop :=
  ∀ member ∈ incarnations cluster node, member.generation ≤ generation

instance (cluster : InMemoryCluster) (node : NodeId) (generation : ℕ) :
    Decidable (NoneAbove cluster node generation) :=
  inferInstanceAs (Decidable (∀ member ∈ incarnations cluster node, _))

/-- The command is a join of the node above the generation. -/
def JoinsAbove (node : NodeId) (generation : ℕ) : RaftMetadataCommand → Prop
  | .memberUpsert joined attempted _ | .clientUpsert joined attempted _ =>
    joined = node ∧ generation < attempted
  | .nodeLeft _ _ _ | .commitTopology _ _ => False

instance (node : NodeId) (generation : ℕ) : DecidablePred (JoinsAbove node generation)
  | .memberUpsert _ _ _ | .clientUpsert _ _ _ => inferInstanceAs (Decidable (_ ∧ _))
  | .nodeLeft _ _ _ | .commitTopology _ _ => .isFalse id

variable {cluster : InMemoryCluster} {node : NodeId} {generation : ℕ}

theorem noneAbove_iff :
    NoneAbove cluster node generation ↔
      (∀ member ∈ cluster.members.lookup node, member.generation ≤ generation) ∧
        ∀ member ∈ cluster.clients.lookup node, member.generation ≤ generation := by
  unfold NoneAbove incarnations
  simp only [mem_append, mem_toList, or_imp, forall_and, mem_def]

theorem NoneAbove.commandEffect (h : NoneAbove cluster node generation)
    (hjoins : ¬ JoinsAbove node generation command) :
    NoneAbove (commandEffect cluster command) node generation := by
  rw [noneAbove_iff] at h ⊢
  obtain ⟨hmems, hclients⟩ := h
  cases command with
  | memberUpsert joined =>
    constructor
    · intro member hmem
      obtain ⟨hnode, rfl⟩ | hmem := KeyMap.of_lookup_insert hmem
      · exact not_lt.mp fun hlt ↦ hjoins ⟨hnode.symm, hlt⟩
      · exact hmems member hmem
    · intro member hmem
      exact hclients member (KeyMap.of_lookup_erase hmem).2
  | clientUpsert joined =>
    refine ⟨hmems, ?_⟩
    intro member hmem
    obtain ⟨hnode, rfl⟩ | hmem := KeyMap.of_lookup_insert hmem
    · exact not_lt.mp fun hlt ↦ hjoins ⟨hnode.symm, hlt⟩
    · exact hclients member hmem
  | nodeLeft =>
    exact ⟨fun member hmem ↦ hmems member (mem_of_mem_nodeLeft.1 member hmem),
      fun member hmem ↦ hclients member (mem_of_mem_nodeLeft.2 member hmem)⟩
  | commitTopology => exact ⟨hmems, hclients⟩

variable {confChange : Entry → Except CacheError Unit} {name : String}

/-- One entry of the log, whether it fails or not. -/
theorem noneAbove_applyCommittedEntry {entry : Entry} (h : NoneAbove state.cluster node generation)
    (hentry : ∀ envelope ∈ envelopeOf entry, ¬ JoinsAbove node generation envelope.command) :
    Ends (applyCommittedEntry confChange entry) state
      fun next ↦ NoneAbove next.cluster node generation := by
  unfold Ends
  rcases run_applyCommittedEntry_cases confChange entry state with
    ⟨-, outcome, hrun, -⟩ | ⟨envelope, henv, hcases⟩
  · rwa [hrun]
  rcases hcases with ⟨-, hrun⟩ | ⟨-, ⟨error, -, hrun⟩ | ⟨cluster, hcluster, hrun⟩⟩
  · rw [hrun]
    exact h
  · rwa [hrun]
  · rw [hrun]
    rcases materializeCommittedCommand_eq_ok_iff.mp hcluster with ⟨-, rfl⟩ | ⟨-, -, rfl⟩
    · exact h
    · exact h.commandEffect (hentry envelope henv)

/-- The entries of the log after one another. -/
theorem noneAbove_foldl {entries : List Entry} (h : NoneAbove state.cluster node generation)
    (hents : ∀ entry ∈ entries, ∀ envelope ∈ envelopeOf entry,
      ¬ JoinsAbove node generation envelope.command) :
    NoneAbove (entries.foldl
      (fun state entry ↦ ((applyCommittedEntry confChange entry).run.run state).2) state).cluster
      node generation := by
  induction entries generalizing state with
  | nil => exact h
  | cons _ _ ih =>
    rw [forall_mem_cons] at hents
    exact ih (noneAbove_applyCommittedEntry h hents.1) hents.2

/-! ### Runs without a join in between -/

/-- A leave is proposed at a replica without an incarnation above its generation, and committed
before any join above it. -/
def Undisturbed (confChange : Entry → Except CacheError Unit) (name : String) (race : Race) :
    RaceEvent → Prop
  | .call seen (.leave node generation) =>
    NoneAbove (race.replica confChange name seen).cluster node generation
  | .call _ _ => True
  | .commit position => ∀ proposal ∈ race.inFlight[position]?,
    ∀ node ∈ proposal.command.leaver, ∀ entry ∈ (race.log.drop proposal.seen).map Prod.fst,
      ∀ envelope ∈ envelopeOf entry, ¬ JoinsAbove node proposal.generation envelope.command

/-- Every leave was proposed in view of part of the log, at a replica without an incarnation above
its generation, and applied where there was none. -/
structure Undisturbing (confChange : Entry → Except CacheError Unit) (name : String) (race : Race) :
    Prop where
  seen : ∀ proposal ∈ race.inFlight, proposal.seen ≤ race.log.length
  validated : ∀ proposal ∈ race.inFlight, ∀ node ∈ proposal.command.leaver,
    NoneAbove (race.replica confChange name proposal.seen).cluster node proposal.generation
  applied : ∀ position entry proposal, race.log[position]? = some (entry, proposal) →
    ∀ node ∈ proposal.command.leaver,
      NoneAbove (race.replica confChange name position).cluster node proposal.generation

variable {race race' : Race} {seen : ℕ}

/-- What a replica has applied does not depend on the entries that come later. -/
theorem replica_append {later : List (Entry × Proposal)} {inFlight : List Proposal}
    (h : seen ≤ race.log.length) :
    Race.replica confChange name { log := race.log ++ later, inFlight } seen =
      race.replica confChange name seen := by
  unfold Race.replica
  rw [take_append_of_le_length h]

/-- A replica that goes on applies the entries between the two places in the log. -/
theorem replica_length (seen : ℕ) :
    race.replica confChange name race.log.length =
      ((race.log.drop seen).map Prod.fst).foldl
        (fun state entry ↦ ((applyCommittedEntry confChange entry).run.run state).2)
        (race.replica confChange name seen) := by
  unfold Race.replica replicaAfter
  rw [← foldl_append, ← map_append, take_append_drop, take_length]

/-- A call adds one proposal, with the command that its replica proposes. -/
theorem raceStep_call_eq_some_iff :
    raceStep confChange name race (.call seen call) = some race' ↔
      seen ≤ race.log.length ∧
        ∃ command, proposed (race.replica confChange name seen) call = some command ∧
          race' = { race with
            inFlight := race.inFlight ++ [{ command, generation := call.generation, seen }] } := by
  rw [raceStep]
  split_ifs with h
  · simp [h, eq_comm]
  · simp [h]

/-- The leave that a call proposes is that of the call. -/
theorem eq_leave_of_mem_leaver (h : proposed state call = some command)
    (hnode : node ∈ command.leaver) : call = .leave node call.generation := by
  cases call with
  | joinMember | joinClient =>
    simp only [proposed] at h
    split_ifs at h
    obtain ⟨-, rfl⟩ := unlessApplied_eq_some_iff.mp h
    cases hnode
  | leave =>
    obtain ⟨predicted, -, h⟩ := bind_eq_some_iff.mp h
    split_ifs at h
    obtain ⟨-, rfl⟩ := unlessApplied_eq_some_iff.mp h
    cases hnode
    rfl

theorem undisturbing_raceStep {event : RaceEvent} (h : Undisturbing confChange name race)
    (hevent : Undisturbed confChange name race event)
    (hstep : raceStep confChange name race event = some race') :
    Undisturbing confChange name race' := by
  cases event with
  | call =>
    obtain ⟨hseen, command, hcommand, rfl⟩ := raceStep_call_eq_some_iff.mp hstep
    refine ⟨?_, ?_, h.applied⟩
    · exact forall_mem_append.mpr ⟨h.seen, forall_mem_singleton.mpr hseen⟩
    · refine forall_mem_append.mpr ⟨h.validated, forall_mem_singleton.mpr fun node hnode ↦ ?_⟩
      rwa [eq_leave_of_mem_leaver hcommand hnode] at hevent
  | commit =>
    obtain ⟨proposal, hprop, rfl⟩ := map_eq_some_iff.mp hstep
    have hmem : proposal ∈ race.inFlight := mem_of_getElem? hprop
    refine ⟨?_, ?_, ?_⟩
    · intro other hother
      rw [length_append]
      exact (h.seen other (mem_of_mem_eraseIdx hother)).trans (Nat.le_add_right _ _)
    · intro other hother node hnode
      have hold := mem_of_mem_eraseIdx hother
      rw [replica_append (h.seen other hold)]
      exact h.validated other hold node hnode
    · intro place entry other hplace node hnode
      rcases Nat.lt_or_ge place race.log.length with hlt | hge
      · rw [List.getElem?_append_left hlt] at hplace
        rw [replica_append hlt.le]
        exact h.applied place entry other hplace node hnode
      · -- the leave that is committed: nothing it was checked against has grown since
        rw [List.getElem?_append_right hge, List.getElem?_singleton] at hplace
        split_ifs at hplace with hzero
        cases hplace
        obtain rfl : place = race.log.length :=
          Nat.le_antisymm (Nat.sub_eq_zero_iff_le.mp hzero) hge
        rw [replica_append le_rfl, replica_length proposal.seen]
        exact noneAbove_foldl (h.validated proposal hmem node hnode)
          (hevent proposal hprop node hnode)

/-- Assumes: a run from the empty log in which every leave is proposed at a replica without an
incarnation above its generation, and committed before any join above it. Wherever a leave stands in
the log, what it removes is not above the generation it was checked against. -/
theorem leave_spares_newer {events : List RaceEvent}
    (halong : Along (raceStep confChange name) (Undisturbed confChange name) {} events)
    (hrun : run (raceStep confChange name) {} events = some race) :
    ∀ position entry proposal, race.log[position]? = some (entry, proposal) →
      ∀ node ∈ proposal.command.leaver,
        ∀ member ∈ incarnations (race.replica confChange name position).cluster node,
          member ∉ incarnations (race.replica confChange name (position + 1)).cluster node →
          member.generation ≤ proposal.generation := by
  have hinit : Undisturbing confChange name {} :=
    ⟨fun _ h ↦ absurd h not_mem_nil, fun _ h ↦ absurd h not_mem_nil, fun _ _ _ h ↦ by cases h⟩
  have h := run_invariant (I := Undisturbing confChange name)
    (fun _ _ _ hevent hrace hstep ↦ undisturbing_raceStep hrace hevent hstep) hinit halong hrun
  intro position entry proposal hpos node hnode member hmem _
  exact h.applied position entry proposal hpos node hnode member hmem

/-! A node joins. A replica that has applied its join proposes its leave, and the join of another
node is committed in between. -/

def joinOf (node : NodeId) (generation : ℕ) : ControlCall :=
  .joinMember { nodeId := node, generation, role := .member }

def leaveAfterJoin : List RaceEvent :=
  [.call 0 (joinOf "a" 1), .commit 0, .call 1 (.leave "a" 1), .call 1 (joinOf "b" 1), .commit 1,
    .commit 0]

instance (confChange : Entry → Except CacheError Unit) (name : String) (race : Race) :
    DecidablePred (Undisturbed confChange name race)
  | .call _ (.leave _ _) => inferInstanceAs (Decidable (NoneAbove _ _ _))
  | .call _ (.joinMember _) | .call _ (.joinClient _) => .isTrue trivial
  | .commit position => inferInstanceAs (Decidable (∀ proposal ∈ race.inFlight[position]?, _))

theorem leave_spares_leaveAfterJoin :
    ∃ race, run (raceStep (fun _ ↦ .ok ()) "orders") {} leaveAfterJoin = some race ∧
      race.log.map (fun committed ↦ commandIdFor committed.2.command) =
        ["member-upsert:a:1", "member-upsert:b:1", "node-left:a:2"] ∧
      ∀ member ∈ incarnations (race.replica (fun _ ↦ .ok ()) "orders" 2).cluster "a",
        member ∉ incarnations (race.replica (fun _ ↦ .ok ()) "orders" 3).cluster "a" →
        member.generation ≤ 1 := by
  refine exists_eq_some
    (fun race ↦ race.log.map (fun committed ↦ commandIdFor committed.2.command) = _ ∧
    race.log[2]? =
      some (commandEntry 3 (.nodeLeft "a" .member 2), ⟨.nodeLeft "a" .member 2, 1, 1⟩)) ?_
      fun race hrun ⟨hids, hleave⟩ ↦ ⟨hids, leave_spares_newer ?_ hrun 2 _ _ hleave "a" rfl⟩
  all_goals decide +kernel

/-- The node joins again while its leave is in flight. The leave was checked against the first
generation and removes the second. -/
theorem leave_removes_newer :
    (run (raceStep (fun _ ↦ .ok ()) "orders") {}
        [.call 0 (joinOf "a" 1), .commit 0, .call 1 (.leave "a" 1), .call 1 (joinOf "a" 2),
          .commit 1, .commit 0]).map (fun race ↦
      (race.log.map fun committed ↦ (commandIdFor committed.2.command, committed.2.generation),
        (incarnations (race.replica (fun _ ↦ .ok ()) "orders" 2).cluster "a").map
          ClusterMember.generation,
        (incarnations (race.replica (fun _ ↦ .ok ()) "orders" 3).cluster "a").map
          ClusterMember.generation)) =
      some ([("member-upsert:a:1", 1), ("member-upsert:a:2", 2), ("node-left:a:2", 1)], [2],
        []) := by
  decide +kernel

end HydraCache.Raft
