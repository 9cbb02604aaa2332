import HydraCache.Local.StaleLoads

/-!
# Read-through values overtaken by an invalidation

A read-through call reads a value from the owner of its key, or has the owner run a loader, and then
stores the bytes with `put_encoded`. That put is the plain one: it takes no generation snapshot and
checks none, so an invalidation that comes between the read and the put does not stop it
(`stale_fill_survives`).

`NoStaleFill` is the property: a value read before an invalidation of its key, of one of its tags,
or a flush began is not in the cache once the call and the invalidation are over. An invalidation
finds what it removes in one instruction, its sweep. `SweepsSettled` says of a sweep that the calls
it overtakes have inserted their values, and of one by tag that these values are listed under the
tag; `noStaleFill_of_sweepsSettled` proves `NoStaleFill` in every state of every run in which each
sweep meets it.

Scope. The near cache of a reader and the cache of an owner are the same to the calls, so there is
one cache here. Where a value comes from, and what it is, is given with each read. A call that does
not store its value leaves nothing, and is left out.
-/

set_option autoImplicit false

namespace HydraCache.Transport

open Lib Local State List

/-! ### Calls -/

/-- A call that has its value, the time it was read, and the task that stores it. -/
structure ReadThroughCall where
  key : Key
  value : Local.Bytes
  options : CacheOptions
  readAt : ℕ
  writer : Option ℕ := none

structure ReadThroughState where
  cache : State
  calls : List ReadThroughCall := []

inductive ReadThroughLabel where
  -- `fetch_owner_value` or the loader of `load_once` comes to its value
  | read (key : Key) (value : Local.Bytes) (options : CacheOptions)
  -- the call goes on to `put_encoded`
  | store (call : ℕ)
  | cache (label : Label)

namespace ReadThroughState

def step (config : CacheConfig) (s : ReadThroughState) : ReadThroughLabel → Option ReadThroughState
  | .read key value options =>
    some { s with calls := ⟨key, value, options, s.cache.clock, none⟩ :: s.calls }
  | .store call =>
    match s.calls[call]? with
    | some ⟨key, value, options, readAt, none⟩ =>
      some
        { cache := s.cache.start (.put key value options)
          calls := s.calls.set call ⟨key, value, options, readAt, some s.cache.spawned⟩ }
    | _ => none
  | .cache label => (Local.step config s.cache label).map fun cache ↦ { s with cache }

end ReadThroughState

/-! ### The property -/

/-- The operation invalidates the key or one of the tags, or flushes. -/
def Covers (key : Key) (tags : List Tag) : Op → Prop
  | .invalidateKey name => name = key
  | .invalidateTag tag => tag ∈ tags
  | .flush => True
  | _ => False

/-- The instruction with which an invalidation finds what it removes. -/
def sweep : Op → Option Instr
  | .invalidateKey key => some (.removeLookup key)
  | .invalidateTag tag => some (.takeTag tag)
  | .flush => some .invalidateAll
  | _ => none

/-- The task invalidates what the call read before the task began. -/
def Overtaken (cache : State) (invalidation : ℕ) (call : ReadThroughCall) : Prop :=
  call.readAt ≤ (cache.tasks invalidation).startedAt ∧
    ∃ op, (cache.tasks invalidation).op = some op ∧ Covers call.key call.options.tags op

def NoStaleFill (s : ReadThroughState) : Prop :=
  ∀ call ∈ s.calls, ∀ writer, call.writer = some writer → (s.cache.tasks writer).code = [] →
    ∀ invalidation, Overtaken s.cache invalidation call → (s.cache.tasks invalidation).code = [] →
      ∀ write, ¬ s.cache.Holds writer write

/-- A sweep has none of the calls it overtakes ahead of its insertion, and one by tag finds their
values listed. -/
def SweepsSettled (s : ReadThroughState) : ReadThroughLabel → Prop
  | .cache (.step tid _) => ∀ op instr, (s.cache.tasks tid).op = some op →
      (s.cache.tasks tid).code.head? = some instr → sweep op = some instr →
      ∀ call ∈ s.calls, Overtaken s.cache tid call → ∃ writer, call.writer = some writer ∧
        (∀ next ∈ (s.cache.tasks writer).code, next.committed = false) ∧
        ∀ tag, instr = .takeTag tag → ∀ write, s.cache.Holds writer write →
          (s.cache.shared.index.listing tag write.key).isSome
  | _ => True

/-! ### The code of a put -/

/-- The instruction may be ahead in a put under `key`: it belongs to the load of every snapshot of
the key, so to none. -/
def PutsUnder (key : Key) (instr : Instr) : Prop :=
  ∀ snapshot : LoadGenerationSnapshot, snapshot.key = key → instr.ForSnapshot snapshot

variable {key : Key} {value : Local.Bytes}

theorem not_putsUnder_checkFresh {request : Request}
    {taken : LoadGenerationSnapshot} : ¬ PutsUnder key (.checkFresh request value taken) := by
  intro h
  have hzero := (h ⟨0, key, 0, []⟩ rfl).1
  simp [(h ⟨1, key, 0, []⟩ rfl).1] at hzero

theorem putsUnder_put_code (observed : Bool) (key : Key) (value : Local.Bytes)
    (options : CacheOptions) :
    ∀ instr ∈ (Op.put key value options).code observed, PutsUnder key instr := by
  intro instr hinstr snapshot hkey
  rcases mem_cons.mp hinstr with rfl | hinstr
  · trivial
  · rw [mem_singleton.mp hinstr]
    exact hkey.symm

/-! ### The invariant -/

/-- The call's put is ahead of no insertion, and the task goes on to remove what it has inserted. -/
def Settled (cache : State) (invalidation : ℕ) (call : ReadThroughCall) : Prop :=
  ∃ writer, call.writer = some writer ∧
    (∀ next ∈ (cache.tasks writer).code, next.committed = false) ∧
    ∀ write, cache.Holds writer write → cache.Removes invalidation write.key

structure FillInvariant (cache : State) (calls : List ReadThroughCall) : Prop where
  wellFormed : WellFormed cache
  started : ∀ tid op, (cache.tasks tid).op = some op → (cache.tasks tid).startedAt < cache.clock
  spawned : ∀ call ∈ calls, ∀ writer, call.writer = some writer → writer < cache.spawned
  puts : ∀ call ∈ calls, ∀ writer, call.writer = some writer →
    ∀ instr ∈ (cache.tasks writer).code, PutsUnder call.key instr
  keys : ∀ call ∈ calls, ∀ writer, call.writer = some writer →
    ∀ write ∈ cache.shared.writes, write.writer = writer → write.key = call.key
  settled : ∀ call ∈ calls, ∀ invalidation, Overtaken cache invalidation call →
    (∀ op instr, (cache.tasks invalidation).op = some op → sweep op = some instr →
      instr ∉ (cache.tasks invalidation).code) → Settled cache invalidation call

variable {s : ReadThroughState}

theorem FillInvariant.noStaleFill (h : FillInvariant s.cache s.calls) : NoStaleFill s := by
  intro call hcall writer hwr _ invalidation hover hdone write hholds
  obtain ⟨other, hother, _, hrem⟩ := h.settled call hcall invalidation hover
    fun op instr _ _ ↦ by rw [hdone]; exact not_mem_nil
  cases hwr.symm.trans hother
  have hahead := hrem write hholds
  rw [Removes, hdone] at hahead
  rcases hahead with hahead | hahead <;> cases hahead

theorem fillInvariant_initial (observed : Bool) : FillInvariant (initial observed) [] := by
  refine ⟨wellFormed_initial .., ?_, ?_, ?_, ?_, ?_⟩
  · intro tid op hop
    cases hop
  all_goals
    intro call hcall
    cases hcall

section Advance

variable {config : CacheConfig} {s : State} {calls : List ReadThroughCall} {tid : ℕ}
  {choice : Choice} {instr : Instr} {rest : List Instr} {outcome : Outcome} {call : ReadThroughCall}
  {invalidation : ℕ}

theorem overtaken_advance :
    Overtaken (s.advance tid rest outcome) invalidation call ↔ Overtaken s invalidation call := by
  unfold Overtaken
  rw [startedAt_advance, op_advance]

variable (h : FillInvariant s calls) (hcode : (s.tasks tid).code = instr :: rest)
  (hexec : exec config tid choice s.shared instr = some outcome) {writer : ℕ} {write : Write}
include h hcode hexec

/-- A put that is ahead of no insertion does not come to one. -/
theorem FillInvariant.not_committed_advance (hcall : call ∈ calls) (hwr : call.writer = some writer)
    (hpre : ∀ next ∈ (s.tasks writer).code, next.committed = false) :
    ∀ next ∈ ((s.advance tid rest outcome).tasks writer).code, next.committed = false := by
  intro next hnext
  rcases mem_code_advance hcode hnext with hold | ⟨rfl, hafter⟩
  · exact hpre next hold
  · have hinstr := mem_code_of_eq_cons hcode
    rw [← Bool.not_eq_true]
    intro hcom
    rcases (exec_continues hexec hafter).committed hcom with hprev | ⟨_, _, _, rfl, _⟩
    · simp [hpre instr hinstr] at hprev
    · exact not_putsUnder_checkFresh (h.puts call hcall writer hwr _ hinstr)

/-- Assumes: the call's put is ahead of no insertion. What it holds after an instruction, it
held. -/
theorem FillInvariant.holds_of_advance
    (hpre : ∀ next ∈ (s.tasks writer).code, next.committed = false)
    (hholds : (s.advance tid rest outcome).Holds writer write) : s.Holds writer write := by
  rcases (exec_storeEffect hexec).mem_writes hholds.1 with hwrite | ⟨hwr, rfl⟩
  · exact Local.holds_of_advance hcode hexec h.wellFormed hwrite hholds
  · have htask : tid = writer := hwr.symm.trans hholds.2.1
    cases hpre _ (htask ▸ mem_code_of_eq_cons hcode)

/-- Assumes: the instruction that runs is the sweep of the invalidation, and finds the call
settled. -/
theorem FillInvariant.removes_of_sweep (hcall : call ∈ calls) (hwr : call.writer = some writer)
    {op : Op} (hcov : Covers call.key call.options.tags op) (hsweep : sweep op = some instr)
    (hlist : ∀ tag, instr = .takeTag tag → ∀ write, s.Holds writer write →
      (s.shared.index.listing tag write.key).isSome) (hpre : s.Holds writer write)
    (hholds : (s.advance tid rest outcome).Holds writer write) :
    (s.advance tid rest outcome).Removes tid write.key := by
  cases op with
  | invalidateKey key =>
    cases hsweep
    have hkey : key = write.key := by
      rwa [h.keys call hcall writer hwr write hpre.1 hpre.2.1]
    have hrem : s.Removes tid write.key :=
      .inl (hkey ▸ mem_code_of_eq_cons hcode)
    exact hrem.advance hcode hexec (Option.ne_none_iff_exists'.mpr ⟨_, hholds.2.2⟩)
  | invalidateTag tag =>
    cases hsweep
    left
    rw [tasks_advance_self, mem_append]
    simp only [exec] at hexec
    split at hexec
    · rename_i keys
      split_ifs at hexec with hperm
      cases hexec
      have hmem := TagIndex.mem_takeTag.mpr (hlist tag rfl write hpre)
      exact .inl (mem_map_of_mem (hperm.mem_iff.mpr hmem))
    · cases hexec
  | flush =>
    cases hsweep
    cases hexec
    cases hholds.2.2
  | read | put | backgroundRefresh => cases hsweep

section

variable (hclean : SweepsSettled ⟨s, calls⟩ (.cache (.step tid choice)))
include hclean

theorem FillInvariant.settled_advance (hcall : call ∈ calls) (hover : Overtaken s invalidation call)
    (hswept : ∀ op instr, (s.tasks invalidation).op = some op → sweep op = some instr →
      instr ∉ ((s.advance tid rest outcome).tasks invalidation).code) :
    Settled (s.advance tid rest outcome) invalidation call := by
  by_cases hpre : ∀ op instr, (s.tasks invalidation).op = some op → sweep op = some instr →
      instr ∉ (s.tasks invalidation).code
  · obtain ⟨writer, hwr, hins, hrem⟩ := h.settled call hcall invalidation hover hpre
    refine ⟨writer, hwr, h.not_committed_advance hcode hexec hcall hwr hins, fun write hholds ↦ ?_⟩
    refine (hrem write (h.holds_of_advance hcode hexec hins hholds)).advance hcode hexec ?_
    exact Option.ne_none_iff_exists'.mpr ⟨_, hholds.2.2⟩
  · -- the sweep was ahead and is no longer, so it is the instruction that ran
    push Not at hpre
    obtain ⟨op, sweeping, hop, hsweep, hahead⟩ := hpre
    have hself : sweeping = instr := by
      by_contra hne
      exact hswept op sweeping hop hsweep (mem_code_advance_of_ne hcode hne hahead)
    have htid : invalidation = tid := by
      by_contra hne
      have hgone := hswept op sweeping hop hsweep
      rw [tasks_advance_of_ne s hne] at hgone
      exact hgone hahead
    subst hself htid
    obtain ⟨writer, hwr, hins, hlist⟩ := hclean op sweeping hop
      (by rw [hcode, List.head?_cons]) hsweep call hcall hover
    have hcov : Covers call.key call.options.tags op := by
      obtain ⟨_, other, hother, hcov⟩ := hover
      cases hop.symm.trans hother
      exact hcov
    exact ⟨writer, hwr, h.not_committed_advance hcode hexec hcall hwr hins,
      fun write hholds ↦ h.removes_of_sweep hcode hexec hcall hwr hcov hsweep hlist
        (h.holds_of_advance hcode hexec hins hholds) hholds⟩

theorem FillInvariant.advance : FillInvariant (s.advance tid rest outcome) calls := by
  have hinstr := mem_code_of_eq_cons hcode
  refine ⟨h.wellFormed.advance hcode hexec, ?_, h.spawned, ?_, ?_, ?_⟩
  · intro other op hop
    rw [op_advance] at hop
    rw [startedAt_advance]
    exact (h.started other op hop).trans (Nat.lt_succ_self _)
  · intro call hcall writer hwr next hnext
    rcases mem_code_advance hcode hnext with hold | ⟨rfl, hafter⟩
    · exact h.puts call hcall writer hwr next hold
    · exact fun snapshot hkey ↦ (exec_continues hexec hafter).forSnapshot
        (h.puts call hcall writer hwr instr hinstr snapshot hkey)
  · intro call hcall writer hwr write hwrite htask
    rcases (exec_storeEffect hexec).mem_writes hwrite with hold | ⟨htid, rfl⟩
    · exact h.keys call hcall writer hwr write hold htask
    · have hself : tid = writer := htid.symm.trans htask
      exact h.puts call hcall writer hwr _ (hself ▸ hinstr) ⟨0, call.key, 0, []⟩ rfl
  · intro call hcall invalidation hover hswept
    rw [overtaken_advance] at hover
    simp only [op_advance] at hswept
    exact h.settled_advance hcode hexec hclean hcall hover hswept

end

end Advance

/-! ### Starts, reads and the environment -/

section Steps

variable {s : State} {calls : List ReadThroughCall}

/-- An invalidation that just started has its sweep ahead. -/
theorem sweep_of_covers {tags : List Tag} {op : Op} (h : Covers key tags op)
    (observed : Bool) : ∃ instr, sweep op = some instr ∧ instr ∈ op.code observed := by
  cases op with
  | invalidateKey | invalidateTag => exact ⟨_, rfl, mem_cons_of_mem _ mem_cons_self⟩
  | flush => exact ⟨_, rfl, mem_cons_self⟩
  | read | put | backgroundRefresh => exact h.elim

section

variable (h : FillInvariant s calls) {s' : State}
include h

/-- Assumes: calls whose tasks are spawned before. A new task settles them no less. -/
theorem FillInvariant.start (op : Op) : FillInvariant (s.start op) calls := by
  have hold : ∀ tid < s.spawned, (s.start op).tasks tid = s.tasks tid := by
    intro tid htid
    rw [tasks_start, if_neg htid.ne]
  refine ⟨h.wellFormed.start op, ?_, ?_, ?_, h.keys, ?_⟩
  · intro tid other hop
    rw [tasks_start] at hop ⊢
    split_ifs at hop ⊢
    · exact Nat.lt_succ_self _
    · exact (h.started tid other hop).trans (Nat.lt_succ_self _)
  · exact fun call hcall writer hwr ↦ (h.spawned call hcall writer hwr).trans (Nat.lt_succ_self _)
  · intro call hcall writer hwr
    rw [hold writer (h.spawned call hcall writer hwr)]
    exact h.puts call hcall writer hwr
  · intro call hcall invalidation hover hswept
    by_cases hnew : invalidation = s.spawned
    · -- the new task has made no sweep
      subst hnew
      obtain ⟨_, other, hop, hcov⟩ := hover
      rw [tasks_start, if_pos rfl] at hop hswept
      cases hop
      obtain ⟨instr, hsweep, hahead⟩ := sweep_of_covers hcov s.shared.observed
      exact absurd hahead (hswept op instr rfl hsweep)
    · have hsame : (s.start op).tasks invalidation = s.tasks invalidation := by
        rw [tasks_start, if_neg hnew]
      unfold Overtaken at hover
      rw [hsame] at hover hswept
      obtain ⟨writer, hwr, hins, hrem⟩ := h.settled call hcall invalidation hover hswept
      refine ⟨writer, hwr, ?_, ?_⟩
      · rwa [hold writer (h.spawned call hcall writer hwr)]
      · unfold Removes
        rwa [hsame]

theorem FillInvariant.of_environment (hwf : WellFormed s')
    (hmove : EnvironmentMove s s') : FillInvariant s' calls := by
  obtain ⟨htasks, hclock, hspawn, -, -, hwrit, hstore⟩ := hmove
  refine ⟨hwf, ?_, ?_, ?_, ?_, ?_⟩
  · rw [htasks, hclock]
    exact h.started
  · rw [hspawn]
    exact h.spawned
  · rw [htasks]
    exact h.puts
  · rw [hwrit]
    exact h.keys
  · intro call hcall invalidation hover hswept
    unfold Overtaken at hover
    rw [htasks] at hover hswept
    obtain ⟨writer, hwr, hins, hrem⟩ := h.settled call hcall invalidation hover hswept
    refine ⟨writer, hwr, htasks ▸ hins, fun write hholds ↦ ?_⟩
    rw [Removes, htasks]
    exact hrem write ⟨hwrit ▸ hholds.1, hholds.2.1, hstore _ _ hholds.2.2⟩

theorem FillInvariant.cacheStep {config : CacheConfig} {label : Label}
    (hclean : SweepsSettled ⟨s, calls⟩ (.cache label))
    (hstep : Local.step config s label = some s') : FillInvariant s' calls :=
  step_preserves_of_wellFormed (C := fun s label ↦ SweepsSettled ⟨s, calls⟩ (.cache label))
    (I := fun s ↦ FillInvariant s calls) (fun _ h ↦ h.wellFormed) (fun _ op h ↦ h.start op)
    (fun _ _ _ _ _ _ hclean h hcode hexec ↦ h.advance hcode hexec hclean)
    (fun _ _ h ↦ h.of_environment) s label s' hclean h hstep

/-- No invalidation that has begun began after a value read now. -/
theorem FillInvariant.read (key : Key) (value : Local.Bytes)
    (options : CacheOptions) : FillInvariant s (⟨key, value, options, s.clock, none⟩ :: calls) := by
  refine
    { h with
      spawned := forall_mem_cons.mpr ⟨nofun, h.spawned⟩
      puts := forall_mem_cons.mpr ⟨nofun, h.puts⟩
      keys := forall_mem_cons.mpr ⟨nofun, h.keys⟩
      settled := forall_mem_cons.mpr ⟨fun invalidation hover ↦ ?_, h.settled⟩ }
  obtain ⟨hread, op, hop, _⟩ := hover
  exact absurd (h.started invalidation op hop) hread.not_gt

/-- Assumes: a call that waits to store its value. It is overtaken by no sweep that has been
made. -/
theorem FillInvariant.store {call : ℕ} {options : CacheOptions} {readAt : ℕ}
    (hcall : calls[call]? = some ⟨key, value, options, readAt, none⟩) :
    FillInvariant (s.start (.put key value options))
      (calls.set call ⟨key, value, options, readAt, some s.spawned⟩) := by
  have hstart := h.start (.put key value options)
  have hnew : (s.start (.put key value options)).tasks s.spawned =
      { op := some (.put key value options)
        code := (Op.put key value options).code s.shared.observed
        startedAt := s.clock } := by
    rw [tasks_start, if_pos rfl]
  have hset {P : ReadThroughCall → Prop} (hcalls : ∀ other ∈ calls, P other)
      (hself : P ⟨key, value, options, readAt, some s.spawned⟩) : ∀ other ∈ calls.set call _,
        P other :=
    fun other hother ↦ (mem_or_eq_of_mem_set hother).elim (hcalls other) (· ▸ hself)
  refine ⟨hstart.wellFormed, hstart.started, hset hstart.spawned ?_, hset hstart.puts ?_,
    hset hstart.keys ?_, hset hstart.settled ?_⟩
  · rintro _ ⟨⟩
    exact Nat.lt_succ_self _
  · rintro _ ⟨⟩
    rw [hnew]
    exact putsUnder_put_code s.shared.observed key value options
  · rintro _ ⟨⟩ write hwrite htask
    exact absurd htask (h.wellFormed.writers.started write hwrite).ne
  · -- the call waited, so no sweep that overtook it was made
    intro invalidation hover hswept
    obtain ⟨writer, hwr, _⟩ := hstart.settled ⟨key, value, options, readAt, none⟩
      (mem_of_getElem? hcall) invalidation hover hswept
    cases hwr

end

end Steps

/-! ### Runs -/

theorem fillInvariant_of_step (config : CacheConfig) (s : ReadThroughState)
    (label : ReadThroughLabel) (s' : ReadThroughState) (hclean : SweepsSettled s label)
    (h : FillInvariant s.cache s.calls) (hstep : s.step config label = some s') :
    FillInvariant s'.cache s'.calls := by
  cases label with
  | read key value options =>
    cases hstep
    exact h.read key value options
  | store =>
    simp only [ReadThroughState.step] at hstep
    split at hstep
    · rename_i hcall
      cases hstep
      exact h.store hcall
    · cases hstep
  | cache =>
    obtain ⟨cache, hcache, rfl⟩ := Option.map_eq_some_iff.mp hstep
    exact h.cacheStep hclean hcache

/-- Assumes: a run from a fresh cache in which every sweep finds the calls it overtakes settled. No
call leaves its value in the cache once it and an invalidation that overtook it are over. -/
theorem noStaleFill_of_sweepsSettled (config : CacheConfig) (observed : Bool)
    (labels : List ReadThroughLabel) (s : ReadThroughState)
    (hrun : run (ReadThroughState.step config) ⟨.initial observed, []⟩ labels = some s)
    (hclean : Along (ReadThroughState.step config) SweepsSettled ⟨.initial observed, []⟩ labels) :
    NoStaleFill s :=
  (run_invariant (I := fun s ↦ FillInvariant s.cache s.calls) (fillInvariant_of_step config)
    (fillInvariant_initial ..) hclean hrun).noStaleFill

/-- A step that is no sweep, or one not by tag that finds the puts of all calls over. -/
def sweepsLate (s : ReadThroughState) : ReadThroughLabel → Bool
  | .cache (.step tid _) =>
    match (s.cache.tasks tid).code.head? with
    | some (.takeTag _) => false
    | some (.removeLookup _) | some .invalidateAll =>
      s.calls.all fun call ↦ call.writer.any fun writer ↦ (s.cache.tasks writer).code.isEmpty
    | _ => true
  | _ => true

theorem SweepsSettled.of_sweepsLate {label : ReadThroughLabel}
    (h : sweepsLate s label = true) : SweepsSettled s label := by
  cases label with
  | read | store => trivial
  | cache label =>
    cases label with
    | start | elapse | evict | observe => trivial
    | step =>
      intro op instr _ hhead hsweep call hcall _
      simp only [sweepsLate, hhead] at h
      have hover : call.writer.any fun writer ↦ (s.cache.tasks writer).code.isEmpty := by
        cases op <;> cases hsweep <;> first | cases h | exact all_eq_true.mp h call hcall
      cases hwriter : call.writer with
      | none => simp [hwriter] at hover
      | some writer =>
        have hdone : (s.cache.tasks writer).code = [] := by simpa [hwriter] using hover
        refine ⟨writer, rfl, by simp [hdone], ?_⟩
        rintro tag rfl
        cases h

/-- A value is read and stored, and the invalidation of its key finds and removes it. -/
def settledFillLabels : List ReadThroughLabel :=
  [.read "user:1" [1] {}, .store 0] ++ replicate 5 (.cache (.step 0 .proceed)) ++
    .cache (.start (.invalidateKey "user:1")) :: replicate 4 (.cache (.step 1 .proceed))

theorem noStaleFill_settledFillLabels :
    ∃ s, run (ReadThroughState.step sampleConfig) ⟨.initial true, []⟩ settledFillLabels = some s ∧
      (∀ tid < s.cache.spawned, (s.cache.tasks tid).code.isEmpty) ∧ NoStaleFill s := by
  have hlate :
    Along (ReadThroughState.step sampleConfig) (sweepsLate · · = true) ⟨.initial true, []⟩
      settledFillLabels := by decide +kernel
  refine exists_eq_some (fun s ↦ ∀ tid < s.cache.spawned, (s.cache.tasks tid).code.isEmpty)
    (by decide +kernel) fun s hrun hdone ↦ ⟨hdone, ?_⟩
  exact noStaleFill_of_sweepsSettled sampleConfig true settledFillLabels s hrun
    (hlate.imp fun _ _ _ ↦ .of_sweepsLate)

/-- The key is invalidated after the value was read and before the call stores it. -/
def staleFillLabels : List ReadThroughLabel :=
  [.read "user:1" [1] {}, .cache (.start (.invalidateKey "user:1")), .cache (.step 0 .proceed),
    .cache (.step 0 .proceed), .store 0, .cache (.step 1 .proceed), .cache (.step 1 .proceed),
    .cache (.step 1 .proceed), .cache (.step 1 .proceed), .cache (.step 1 .proceed),
    .cache (.step 1 .proceed)]

/-- The call and the invalidation are over, and the cache holds the value read before the
invalidation. -/
theorem stale_fill_survives :
    ∃ s, run (ReadThroughState.step sampleConfig) ⟨.initial false, []⟩ staleFillLabels = some s ∧
      ¬ NoStaleFill s := by
  refine ⟨_, rfl, fun h ↦ ?_⟩
  refine h _ mem_cons_self 1 rfl rfl 0 ⟨Nat.le_refl _, .invalidateKey "user:1", rfl, rfl⟩ rfl
    ⟨1, "user:1", ⟨[1], [], some 10, 1⟩⟩ ⟨?_, rfl, rfl⟩
  exact mem_singleton_self _

end HydraCache.Transport
