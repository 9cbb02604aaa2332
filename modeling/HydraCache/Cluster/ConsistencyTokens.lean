import HydraCache.Lib.Run
import HydraCache.Lib.Word
import Mathlib.Data.Finset.Insert

/-!
# Consistency tokens

A node that invalidates a tag after a write hands out a token: it applies the invalidation,
publishes it, advances its own counter, and the token carries the counter's new value. Nodes
exchange tokens. A read with a token waits, within a budget that its mode gives, until the counter
of the node it runs on has reached the token's value, and is then fresh.

Any number of nodes do so here, in any interleaving. A read polls the counter any number of times
before its budget runs out, the bus hands an invalidation to a node late, twice or never, and write
barriers advance counters as well.

Counters of different nodes count different things, and the wait compares the counter of the reading
node with a value that another node's counter had. As long as only waits on the node that issued the
token succeed, a fresh read follows the invalidation behind its token (`applied_of_fresh`). A wait
elsewhere succeeds as soon as the reading node has invalidated often enough on its own account
(`fresh_before_applied`).
-/

set_option autoImplicit false

namespace HydraCache.Cluster

open Lib List

/-! ### Modes, tokens and outcomes -/

inductive ConsistencyMode where
  | eventual
  | localReadYourWrites
  | clusterReadYourWrites (timeout : ℕ)
  | quorum (timeout : ℕ)
  | leader
  | failClosed
  | degradedOk
deriving DecidableEq

/-- How long a read of the mode waits. -/
def ConsistencyMode.timeout : ConsistencyMode → ℕ
  | .clusterReadYourWrites timeout | .quorum timeout => timeout
  | .eventual | .localReadYourWrites | .leader | .failClosed | .degradedOk => 0

structure ConsistencyToken where
  generation : ℕ
  «namespace» : String
  originNode : String
deriving DecidableEq

inductive DegradeReason where
  | timeout
  | unsupportedMode (mode : String)
deriving DecidableEq

inductive ConsistencyOutcome (V : Type) where
  | fresh (value : V)
  | degraded (value : V) (reason : DegradeReason)
  | timedOut
  | failedClosed (reason : DegradeReason)
deriving DecidableEq

/-- How far a read has come with its wait. -/
inductive ReadStatus where
  | waiting
  | reached
  | lapsed
  | refused
deriving DecidableEq

/-- What a read returns, given how its wait ended, what the loader or the cache yields after a wait
that succeeded, and what the cache holds after one that did not. -/
def outcome {V : Type} (mode : ConsistencyMode) (loaded : V) (cached : Option V) :
    ReadStatus → Option (ConsistencyOutcome V)
  | .waiting => none
  | .reached => some (.fresh loaded)
  | .refused => some (.failedClosed (.unsupportedMode "leader"))
  | .lapsed =>
    match mode with
    | .eventual | .localReadYourWrites | .failClosed | .leader => some (.failedClosed .timeout)
    | .clusterReadYourWrites _ | .quorum _ => some .timedOut
    | .degradedOk =>
      match cached with
      | some value => some (.degraded value .timeout)
      | none => some .timedOut

/-! ### Nodes that exchange tokens -/

/-- A token with the node and the invalidation behind it. -/
structure IssuedToken (ι : Type) where
  token : ConsistencyToken
  node : ι
  invalidation : ℕ

structure ConsistentRead (ι : Type) where
  node : ι
  token : IssuedToken ι
  mode : ConsistencyMode
  status : ReadStatus

/-- The counter of each node and the invalidations applied there, all invalidations with the node
that made them, all tokens, and all reads. -/
structure TokenNet (ι : Type) where
  generation : ι → ℕ
  applied : ι → Finset ℕ
  invalidations : List ι
  tokens : List (IssuedToken ι)
  reads : List (ConsistentRead ι)

inductive TokenEvent (ι : Type) where
  /-- A node applies an invalidation of its own and publishes it. -/
  | invalidate (node : ι)
  /-- It advances its counter and hands out the token. -/
  | issue (invalidation : ℕ) («namespace» : String)
  /-- The bus hands an invalidation to a node, which applies it. -/
  | deliver (node : ι) (invalidation : ℕ)
  | writeBarrierToken (node : ι)
  | recordAppliedWriteBarrier (node : ι) (messageId : ℕ)
  | beginRead (node : ι) (token : ℕ) (mode : ConsistencyMode)
  | poll (read : ℕ)
  | giveUp (read : ℕ)

namespace TokenNet

variable {ι : Type} [DecidableEq ι]

def initial : TokenNet ι where
  generation _ := 0
  applied _ := ∅
  invalidations := []
  tokens := []
  reads := []

section

variable (net : TokenNet ι)

/-- The invalidation has been applied at the node. -/
def applyAt (node : ι) (invalidation : ℕ) : TokenNet ι :=
  { net with applied := Function.update net.applied node (insert invalidation (net.applied node)) }

/-- The counter advanced by one, as an atomic addition does it. -/
def fetchAdd (node : ι) : TokenNet ι :=
  { net with
    generation := Function.update net.generation node (wrappingSucc (net.generation node)) }

/-- The wait's check of the counter. -/
def covers (read : ConsistentRead ι) : Bool :=
  read.token.token.generation ≤ net.generation read.node

/-- The status of a waiting read after a check. -/
def polled (read : ConsistentRead ι) : ReadStatus :=
  if net.covers read then .reached
  else if read.mode.timeout = 0 then .lapsed
  else .waiting

def step (nodeId : ι → String) (net : TokenNet ι) : TokenEvent ι → Option (TokenNet ι)
  | .invalidate node =>
    some { net.applyAt node net.invalidations.length with
      invalidations := net.invalidations ++ [node] }
  | .issue invalidation «namespace» =>
    net.invalidations[invalidation]?.map fun node ↦
      { net.fetchAdd node with
        tokens := net.tokens ++ [{
          token :=
            ⟨saturatingSucc (net.generation node), «namespace», nodeId node⟩, node,
            invalidation }] }
  | .deliver node invalidation =>
    if invalidation < net.invalidations.length then some (net.applyAt node invalidation) else none
  | .writeBarrierToken node => some (net.fetchAdd node)
  | .recordAppliedWriteBarrier node messageId =>
    some { net with
      generation := Function.update net.generation node (max (net.generation node) messageId) }
  | .beginRead node token mode =>
    net.tokens[token]?.map fun token ↦
      let status := if mode = .leader then ReadStatus.refused else .waiting
      { net with reads := net.reads ++ [{ node, token, mode, status }] }
  | .poll index =>
    net.reads[index]?.bind fun read ↦
      if read.status = .waiting then
        some { net with reads := net.reads.set index { read with status := net.polled read } }
      else none
  | .giveUp index =>
    net.reads[index]?.bind fun read ↦
      if read.status = .waiting ∧ read.mode.timeout ≠ 0 then
        some { net with reads := net.reads.set index { read with status := .lapsed } }
      else none

/-- A wait that checks the counter is for a token of the same node, or finds the counter below the
token's generation. -/
def CoversOwnToken (event : TokenEvent ι) : Prop :=
  ∀ index, event = .poll index → ∀ read, net.reads[index]? = some read →
    read.token.node = read.node ∨ net.covers read = false

end

/-- What the nodes have applied when a token is out and when a wait has succeeded. -/
structure Sound (net : TokenNet ι) : Prop where
  invalidations : ∀ (invalidation : ℕ) node, net.invalidations[invalidation]? = some node →
    invalidation ∈ net.applied node
  tokens : ∀ token ∈ net.tokens, token.invalidation ∈ net.applied token.node
  issued : ∀ read ∈ net.reads, read.token.invalidation ∈ net.applied read.token.node
  reads : ∀ read ∈ net.reads, read.status = .reached →
    read.token.invalidation ∈ net.applied read.node

variable {nodeId : ι → String} {net net' : TokenNet ι} {event : TokenEvent ι}

theorem mem_applied_applyAt {node other : ι} {invalidation m : ℕ} :
    m ∈ (net.applyAt node invalidation).applied other ↔
      (other = node ∧ m = invalidation) ∨ m ∈ net.applied other := by
  change m ∈ Function.update net.applied node _ other ↔ _
  rw [Function.update_apply]
  split_ifs with h
  · rw [Finset.mem_insert, h]
    simp
  · simp [h]

/-- An invalidation applied at one more node leaves what was sound sound. -/
theorem sound_applyAt (node : ι) (invalidation : ℕ) (h : Sound net) :
    Sound (net.applyAt node invalidation) where
  invalidations m other hm := mem_applied_applyAt.mpr (.inr (h.invalidations m other hm))
  tokens token htoken := mem_applied_applyAt.mpr (.inr (h.tokens token htoken))
  issued read hread := mem_applied_applyAt.mpr (.inr (h.issued read hread))
  reads read hread hstatus := mem_applied_applyAt.mpr (.inr (h.reads read hread hstatus))

theorem sound_invalidate (node : ι) (h : Sound net) :
    Sound { net.applyAt node net.invalidations.length with
      invalidations := net.invalidations ++ [node] } := by
  have hkept := sound_applyAt node net.invalidations.length h
  refine { hkept with invalidations := fun m other hm ↦ ?_ }
  rcases Nat.lt_or_ge m net.invalidations.length with hlt | hge
  · rw [List.getElem?_append_left hlt] at hm
    exact hkept.invalidations m other hm
  · rw [List.getElem?_append_right hge] at hm
    obtain ⟨hindex, hnode⟩ := List.getElem?_eq_some_iff.mp hm
    have hzero : m - net.invalidations.length = 0 := Nat.lt_one_iff.mp hindex
    refine mem_applied_applyAt.mpr (.inl ⟨?_, by omega⟩)
    rw [← hnode]
    exact getElem_singleton hindex

section

omit [DecidableEq ι]

theorem sound_initial : Sound (initial : TokenNet ι) where
  invalidations _ _ h := absurd h (by simp [initial])
  tokens _ h := absurd h not_mem_nil
  issued _ h := absurd h not_mem_nil
  reads _ h := absurd h not_mem_nil

variable {read : ConsistentRead ι}

/-- A read is added that does not count as reached yet. -/
theorem sound_append_read (htoken : read.token.invalidation ∈ net.applied read.token.node)
    (hstatus : read.status ≠ .reached) (h : Sound net) :
    Sound { net with reads := net.reads ++ [read] } := by
  refine ⟨h.invalidations, h.tokens, fun other hother ↦ ?_, fun other hother hreach ↦ ?_⟩
  · rcases mem_append.mp hother with hprev | hlast
    · exact h.issued other hprev
    · rwa [mem_singleton.mp hlast]
  · rcases mem_append.mp hother with hprev | hlast
    · exact h.reads other hprev hreach
    · rw [mem_singleton.mp hlast] at hreach
      exact absurd hreach hstatus

/-- The status of one read changes, to reached only where the invalidation has been applied. -/
theorem sound_set_status {index : ℕ} {status : ReadStatus} (hread : net.reads[index]? = some read)
    (hstatus : status = .reached → read.token.invalidation ∈ net.applied read.node)
    (h : Sound net) :
    Sound { net with reads := net.reads.set index { read with status } } := by
  refine ⟨h.invalidations, h.tokens, fun other hother ↦ ?_, fun other hother hreach ↦ ?_⟩
  · rcases mem_or_eq_of_mem_set hother with hmem | rfl
    · exact h.issued other hmem
    · exact h.issued read (mem_of_getElem? hread)
  · rcases mem_or_eq_of_mem_set hother with hmem | rfl
    · exact h.reads other hmem hreach
    · exact hstatus hreach

theorem covers_of_polled_eq_reached (h : net.polled read = .reached) : net.covers read = true := by
  unfold polled at h
  split_ifs at h with hcov
  exact hcov

end

theorem sound_step (hown : CoversOwnToken net event) (h : Sound net)
    (hstep : step nodeId net event = some net') : Sound net' := by
  cases event with
  | invalidate node =>
    cases hstep
    exact sound_invalidate node h
  | issue invalidation «namespace» =>
    obtain ⟨node, hnode, rfl⟩ := Option.map_eq_some_iff.mp hstep
    refine { h with tokens := forall_mem_append.mpr ⟨h.tokens, forall_mem_singleton.mpr ?_⟩ }
    exact h.invalidations invalidation node hnode
  | deliver node invalidation =>
    change (if _ then _ else _) = _ at hstep
    split_ifs at hstep
    cases hstep
    exact sound_applyAt node invalidation h
  | writeBarrierToken | recordAppliedWriteBarrier =>
    cases hstep
    exact { h with }
  | beginRead =>
    obtain ⟨token, htoken, rfl⟩ := Option.map_eq_some_iff.mp hstep
    refine sound_append_read (h.tokens token (mem_of_getElem? htoken)) ?_ h
    split_ifs <;> nofun
  | poll index =>
    obtain ⟨read, hread, hpoll⟩ := Option.bind_eq_some_iff.mp hstep
    split_ifs at hpoll
    cases hpoll
    refine sound_set_status hread (fun hreach ↦ ?_) h
    have hcov := covers_of_polled_eq_reached hreach
    -- the counter only says something about the node that issued the token
    rcases hown index rfl read hread with hnode | hbelow
    · exact hnode ▸ h.issued read (mem_of_getElem? hread)
    · exact absurd hcov (by rw [hbelow]; nofun)
  | giveUp =>
    obtain ⟨read, hread, hlapse⟩ := Option.bind_eq_some_iff.mp hstep
    split_ifs at hlapse
    cases hlapse
    exact sound_set_status hread nofun h

/-- Assumes: a run in which every wait that finds the counter at its token's generation is on the
node that issued the token. When a read under one of the cluster modes is fresh, the invalidation
behind its token has been applied on its node. -/
theorem applied_of_fresh {V : Type} (nodeId : ι → String) (events : List (TokenEvent ι))
    (hown : Along (step nodeId) CoversOwnToken initial events)
    (hrun : run (step nodeId) initial events = some net) :
    ∀ read ∈ net.reads, ∀ timeout, (read.mode = .clusterReadYourWrites timeout ∨
      read.mode = .quorum timeout) → ∀ (loaded value : V) (cached : Option V),
        outcome read.mode loaded cached read.status = some (.fresh value) →
          read.token.invalidation ∈ net.applied read.node := by
  have hsound : Sound net := run_invariant (fun _ _ _ ↦ sound_step) sound_initial hown hrun
  intro read hread timeout hmode loaded value cached hfresh
  refine hsound.reads read hread ?_
  cases hstatus : read.status with
  | reached => rfl
  | waiting | refused => rw [hstatus] at hfresh; exact nomatch hfresh
  | lapsed =>
    rw [hstatus] at hfresh
    rcases hmode with hmode | hmode <;> rw [hmode] at hfresh <;> exact nomatch hfresh

/-- A node that reads with its own token, while the other node waits with it and gives up. -/
theorem applied_of_fresh_own_token :
    ∃ net : TokenNet Bool,
      run (step fun node ↦ if node then "node-b" else "node-a") initial
        [.invalidate false, .issue 0 "orders", .beginRead false 0 (.quorum 50),
          .beginRead true 0 (.quorum 50), .poll 0, .poll 1, .giveUp 1] = some net ∧
      ∃ read ∈ net.reads, outcome read.mode "new" none read.status = some (.fresh "new") ∧
        read.token.invalidation ∈ net.applied read.node := by
  refine ⟨_, rfl, _, mem_cons_self, rfl,
    applied_of_fresh (fun node ↦ if node then "node-b" else "node-a")
      [.invalidate false, .issue 0 "orders", .beginRead false 0 (.quorum 50),
        .beginRead true 0 (.quorum 50), .poll 0, .poll 1, .giveUp 1]
      ?_ rfl _ mem_cons_self 50 (.inr rfl) "new" "new" none rfl⟩
  iterate 4 refine .cons rfl nofun ?_
  refine .cons rfl (fun index hindex read hread ↦ ?_) ?_
  · cases hindex
    cases hread
    exact .inl rfl
  refine .cons rfl (fun index hindex read hread ↦ ?_) ?_
  · cases hindex
    cases hread
    exact .inr rfl
  exact ⟨nofun, fun _ _ ↦ trivial⟩

/-- Each node invalidates once. The second reads with the first one's token: its own counter has the
token's value, and the read is fresh although the first node's invalidation never arrived. -/
theorem fresh_before_applied :
    ∃ net : TokenNet Bool,
      run (step fun node ↦ if node then "node-b" else "node-a") initial
        [.invalidate false, .issue 0 "orders", .invalidate true, .issue 1 "orders",
          .beginRead true 0 (.quorum 50), .poll 0] = some net ∧
      ∃ read ∈ net.reads, read.mode = .quorum 50 ∧
        outcome read.mode "stale" none read.status = some (.fresh "stale") ∧
        read.token.invalidation ∉ net.applied read.node := by
  refine ⟨_, rfl, _, mem_singleton.mpr rfl, rfl, rfl, ?_⟩
  decide

end TokenNet

end HydraCache.Cluster
