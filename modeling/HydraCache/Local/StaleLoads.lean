import HydraCache.Local.Versions

/-!
# Loads overtaken by an invalidation

A load takes a snapshot of the generations of its key and tags before its loader runs, and stores
the loader's value only if the snapshot is still current. An invalidation advances the generation,
then removes what it finds in the store. `NoStaleLoad` is what the two are for: a load whose
snapshot was taken before an invalidation of its key, of one of its tags, or a flush began does not
leave its value in the store once both have returned.

The check and the insertion are separate steps, and so are an invalidation's generation bump and its
removals, so the property fails: an invalidation that bumps and looks while the load has passed its
check and has not inserted yet finds nothing, and the load then stores its stale value
(`staleLoad_survives_invalidateKey`).

`OvertakesCleanly` is the condition under which a bump does what it is for: no load it overtakes is
between its check and its insertion, the values such loads have stored are among those the
invalidation goes on to remove, and no generation wraps. `noStaleLoad_of_overtakesCleanly` proves
`NoStaleLoad` in every state of every run in which each bump meets it.
-/

set_option autoImplicit false

namespace HydraCache.Local

open Lib List

/-! ### The property -/

/-- The bump an instruction makes. -/
def Instr.bump : Instr → Option IndexOp
  | advanceKey key => some (.advanceKey key)
  | takeTag tag => some (.takeTag tag)
  | clearIndex => some .clear
  | _ => none

/-- The bump an operation makes. -/
def Op.bump : Op → Option IndexOp
  | invalidateKey key => some (.advanceKey key)
  | invalidateTag tag => some (.takeTag tag)
  | flush => some .clear
  | _ => none

/-- The operation invalidates the key or a tag of the snapshot, or flushes. -/
def Op.Invalidates (snapshot : LoadGenerationSnapshot) (op : Op) : Prop :=
  ∃ bump, op.bump = some bump ∧ bump.Invalidates snapshot

namespace State

/-- The load took its snapshot before the invalidation started. -/
def Overtakes (s : State) (invalidation load : ℕ) (snapshot : LoadGenerationSnapshot) : Prop :=
  ∃ takenAt, (s.tasks load).snapshot = some (snapshot, takenAt) ∧
    takenAt < (s.tasks invalidation).startedAt

/-- The insertion is one the task made, and the store still holds it. -/
def Holds (s : State) (task : ℕ) (write : Write) : Prop :=
  write ∈ s.shared.writes ∧ write.writer = task ∧ s.shared.store write.key = some write.entry

/-- No load leaves its value in the store once it and an invalidation that overtook it are over. -/
def NoStaleLoad (s : State) : Prop :=
  ∀ load invalidation op snapshot, s.Overtakes invalidation load snapshot →
    (s.tasks invalidation).op = some op → op.Invalidates snapshot →
    (s.tasks invalidation).code = [] → (s.tasks load).code = [] → ∀ write, ¬ s.Holds load write

end State

open State

/-! ### When a bump overtakes cleanly -/

/-- The instruction stores a value that has passed its freshness check, or needs none. -/
def Instr.committed : Instr → Bool
  | put .. | replaceLookup .. | replaceUnregister .. | insert .. => true
  | _ => false

/-- The operation whose bump this is goes on to remove `key`. A flush has removed everything before
its bump, so it removes nothing after it. -/
def IndexOp.Reaches (index : TagIndex) (key : Key) : IndexOp → Prop
  | .advanceKey _ => True
  | .takeTag tag => (index.listing tag key).isSome
  | _ => False

/-- A step that bumps a generation does so with room to, with no load it overtakes between its
freshness check and its insertion, and with every value such a load has stored in its reach. -/
def OvertakesCleanly (s : State) : Label → Prop
  | .step tid _ => ∀ instr bump, (s.tasks tid).code.head? = some instr → instr.bump = some bump →
      s.shared.index.HasRoom ∧
      ∀ load snapshot, s.Overtakes tid load snapshot → bump.Invalidates snapshot →
        (∀ next ∈ (s.tasks load).code, next.committed = false) ∧
        ∀ write, s.Holds load write → bump.Reaches s.shared.index write.key
  | _ => True

/-! ### The invariant -/

/-- The instruction belongs to the load of this snapshot, or to no load. -/
def Instr.ForSnapshot (snapshot : LoadGenerationSnapshot) : Instr → Prop
  | lookup .. | refreshMiss .. | sharedLoad .. => False
  | loader request taken | checkFresh request _ taken => taken = snapshot ∧
    request.key = snapshot.key
  | put request _ => request.key = snapshot.key
  | replaceLookup key _ | replaceUnregister key _ _ | insert key _ => key = snapshot.key
  | _ => True

/-- What the tasks that take snapshots and make bumps look like. -/
structure LoadsWellFormed (s : State) : Prop where
  started : ∀ tid, (s.tasks tid).startedAt ≤ s.clock
  forSnapshot : ∀ tid snapshot takenAt, (s.tasks tid).snapshot = some (snapshot, takenAt) →
    ∀ instr ∈ (s.tasks tid).code, instr.ForSnapshot snapshot
  writtenKey : ∀ tid snapshot takenAt, (s.tasks tid).snapshot = some (snapshot, takenAt) →
    ∀ write ∈ s.shared.writes, write.writer = tid → write.key = snapshot.key
  /-- A snapshot is one of the index as it was, at or before the clock of the index as it is. -/
  taken : ∀ tid snapshot takenAt, (s.tasks tid).snapshot = some (snapshot, takenAt) →
    ∃ (index : TagIndex) (key : Key) (tags : List Tag),
      snapshot = index.snapshot key tags ∧ index.clock ≤ s.shared.index.clock
  bumps : ∀ tid op, (s.tasks tid).op = some op → ∀ instr ∈ (s.tasks tid).code,
    ∀ bump, instr.bump = some bump → op.bump = some bump
  advances : ∀ tid key, (s.tasks tid).op = some (.invalidateKey key) →
    .advanceKey key ∈ (s.tasks tid).code →
    (s.tasks tid).code = [.advanceKey key, .removeLookup key]

/-- Once an invalidation has made its bump, a load it overtook cannot store any more, and what the
load has stored is still to be removed by the invalidation. -/
def Fenced (s : State) : Prop :=
  ∀ load invalidation op snapshot, s.Overtakes invalidation load snapshot →
    (s.tasks invalidation).op = some op → op.Invalidates snapshot →
    (∀ instr ∈ (s.tasks invalidation).code, instr.bump = none) →
    s.shared.index.isCurrent snapshot = false ∧
    (∀ instr ∈ (s.tasks load).code, instr.committed = false) ∧
    ∀ write, s.Holds load write → s.Removes invalidation write.key

structure StaleLoadInvariant (s : State) : Prop where
  wellFormed : WellFormed s
  loads : LoadsWellFormed s
  fenced : Fenced s

variable {s : State} {instr : Instr} {op : Op} {bump : IndexOp} {key : Key}

theorem StaleLoadInvariant.noStaleLoad (h : StaleLoadInvariant s) : s.NoStaleLoad := by
  intro load invalidation op snapshot hover hop hinv hdone _ write hholds
  obtain ⟨_, _, hrem⟩ := h.fenced load invalidation op snapshot hover hop hinv (by simp [hdone])
  rcases hrem write hholds with hmem | hmem
  · simp [hdone] at hmem
  · simp [hdone] at hmem

/-! ### Instructions of loads and bumps -/

theorem Instr.forSnapshot_of_not_storing (h : instr.storing = false)
    (snapshot : LoadGenerationSnapshot) : instr.ForSnapshot snapshot := by
  cases instr <;> trivial

theorem Instr.not_committed_of_bump (h : instr.bump = some bump) : instr.committed = false := by
  cases instr <;> first | rfl | cases h

theorem RemovalCode.not_storing (h : RemovalCode key instr) : instr.storing = false := by
  cases h <;> rfl

section Continues

variable {config : CacheConfig} {shared : Shared} {instr next : Instr}

section

variable (h : Continues config shared instr next)
include h

/-- The code of a load stays that of the load. -/
theorem Continues.forSnapshot {snapshot : LoadGenerationSnapshot}
    (hinstr : instr.ForSnapshot snapshot) :
    next.ForSnapshot snapshot := by
  cases h with
  | lookup | refreshMiss | lead | joinFailed => exact hinstr.elim
  | loadFailed h | putFailed h =>
    exact Instr.forSnapshot_of_not_storing (removalCode_of_mem_failedLoad h).1.not_storing _
  | removeFound _ h =>
    exact Instr.forSnapshot_of_not_storing (removalCode_of_mem_removeEntry h).not_storing _
  | freshPut => exact hinstr.2
  | loaded | putInsert | putReplace | replaceInsert | replaceFound | replaced => exact hinstr
  | _ => trivial

/-- No instruction continues with a bump. -/
theorem Continues.bump_eq_none : next.bump = none := by
  have hrem {name : Key} (h : RemovalCode name next) : next.bump = none := by
    cases h <;> rfl
  cases h with
  | lookup h =>
    cases h with
    | removal _ _ _ h => exact hrem h
    | load | miss => rfl
  | joinFailed h | loadFailed h | putFailed h => exact hrem (removalCode_of_mem_failedLoad h).1
  | removeFound _ h => exact hrem (removalCode_of_mem_removeEntry h)
  | _ => rfl

/-- A store is committed by one that was, or by a freshness check that passed. -/
theorem Continues.committed (hnext : next.committed = true) :
    instr.committed = true ∨ ∃ request value snapshot,
      instr = .checkFresh request value snapshot ∧ shared.index.isCurrent snapshot = true := by
  have hrem {name : Key} (h : RemovalCode name next) : False := by
    cases h <;> cases hnext
  cases h with
  | lookup h =>
    cases h with
    | removal _ _ _ h => exact (hrem h).elim
    | load | miss => cases hnext
  | joinFailed h | loadFailed h => exact (hrem (removalCode_of_mem_failedLoad h).1).elim
  | removeFound _ h => exact (hrem (removalCode_of_mem_removeEntry h)).elim
  | freshPut hcur => exact .inr ⟨_, _, _, rfl, hcur⟩
  | putFailed | putInsert | putReplace | replaceInsert | replaceFound | replaced => exact .inl rfl
  | _ => cases hnext

end

end Continues

/-- An operation that makes a bump has it in its code. -/
theorem exists_bump_code (h : op.bump = some bump) (observed : Bool) :
    ∃ instr ∈ op.code observed, instr.bump = some bump := by
  cases op with
  | invalidateKey key => exact ⟨.advanceKey key, by simp [Op.code], h⟩
  | invalidateTag tag => exact ⟨.takeTag tag, by simp [Op.code], h⟩
  | flush => exact ⟨.clearIndex, by simp [Op.code], h⟩
  | read | put | backgroundRefresh => cases h

theorem bump_of_mem_code {observed : Bool}
    (hinstr : instr ∈ op.code observed) (h : instr.bump = some bump) :
    op.bump = some bump := by
  have hall : ∀ instr ∈ op.code observed, instr.bump = none ∨ instr.bump = op.bump := by
    cases op <;> cases observed <;> simp [Op.code, Instr.bump, Op.bump]
  rcases hall instr hinstr with hnone | hsame
  · simp [hnone] at h
  · exact hsame.symm.trans h

section Exec

variable {config : CacheConfig} {task : ℕ} {choice : Choice} {shared : Shared} {instr : Instr}
  {outcome : Outcome}

/-- A bump acts on the index only. -/
theorem exec_bump (h : exec config task choice shared instr = some outcome)
    (hbump : instr.bump = some bump) :
    outcome.shared.index = bump.apply shared.index ∧ outcome.shared.store = shared.store ∧
      outcome.shared.writes = shared.writes := by
  cases instr with
  | advanceKey key =>
    cases h
    cases hbump
    exact ⟨rfl, rfl, rfl⟩
  | takeTag tag =>
    cases hbump
    simp only [exec] at h
    (repeat' split at h) <;> cases h
    exact ⟨rfl, rfl, rfl⟩
  | clearIndex =>
    cases h
    cases hbump
    exact ⟨rfl, rfl, rfl⟩
  | _ => cases hbump

/-- Assumes: room for the bump, if the instruction makes one. The clock of the index goes up. -/
theorem clock_le_exec (h : exec config task choice shared instr = some outcome)
    (hroom : ∀ bump, instr.bump = some bump → shared.index.HasRoom) :
    shared.index.clock ≤ outcome.shared.index.clock := by
  have happly (op : IndexOp) (hop : outcome.shared.index = op.apply shared.index)
      (hbumps : op.bumps = true → shared.index.HasRoom) :
      shared.index.clock ≤ outcome.shared.index.clock := by
    rw [hop]
    exact IndexOp.clock_le_apply hbumps
  cases exec_indexEffect h with
  | keeps _ hindex => rw [hindex]
  | registers key tags version hindex =>
    exact happly (.register key tags version) hindex fun h ↦ by cases h
  | unregisters key tags hindex | replaces key tags _ hindex =>
    exact happly (.unregister key tags) hindex fun h ↦ by cases h
  | cleans ticket _ hindex =>
    exact happly (.unregisterIfVersion ticket.key ..) hindex fun h ↦ by cases h
  | advances key hindex => exact happly (.advanceKey key) hindex fun _ ↦ hroom _ rfl
  | takes tag _ hindex => exact happly (.takeTag tag) hindex fun _ ↦ hroom _ rfl
  | clears hindex => exact happly .clear hindex fun _ ↦ hroom _ rfl

end Exec

/-! ### The invariant is kept by the instructions -/

section Advance

variable {config : CacheConfig} {s : State} {tid : ℕ} {choice : Choice} {instr : Instr}
  {rest : List Instr} {outcome : Outcome}

variable {snapshot : LoadGenerationSnapshot} {load : ℕ} {takenAt : ℕ} {other : ℕ}

/-- A task's snapshot after an instruction is the one it had, or the one just taken. -/
theorem snapshot_of_advance
    (h : ((s.advance tid rest outcome).tasks other).snapshot = some (snapshot, takenAt)) :
    (s.tasks other).snapshot = some (snapshot, takenAt) ∨
      (other = tid ∧ outcome.snapshot = some snapshot ∧ takenAt = s.clock) := by
  by_cases hother : other = tid
  · subst hother
    rw [tasks_advance_self] at h
    cases hsnap : outcome.snapshot with
    | none =>
      rw [hsnap] at h
      exact .inl h
    | some taken =>
      rw [hsnap] at h
      cases h
      exact .inr ⟨rfl, rfl, rfl⟩
  · rw [tasks_advance_of_ne s hother] at h
    exact .inl h

theorem op_advance (other : ℕ) :
    ((s.advance tid rest outcome).tasks other).op = (s.tasks other).op := by
  by_cases hother : other = tid
  · subst hother
    rw [tasks_advance_self]
  · rw [tasks_advance_of_ne s hother]

theorem startedAt_advance (other : ℕ) :
    ((s.advance tid rest outcome).tasks other).startedAt = (s.tasks other).startedAt := by
  by_cases hother : other = tid
  · subst hother
    rw [tasks_advance_self]
  · rw [tasks_advance_of_ne s hother]

/-- A snapshot that is not current stays so as the clock of the index goes up. -/
theorem LoadsWellFormed.not_isCurrent_mono (h : LoadsWellFormed s)
    (hsnap : (s.tasks load).snapshot = some (snapshot, takenAt)) {index : TagIndex}
    (hle : s.shared.index.clock ≤ index.clock)
    (hstale : s.shared.index.isCurrent snapshot = false) : index.isCurrent snapshot = false := by
  obtain ⟨taken, key, tags, rfl, htaken⟩ := h.taken load snapshot takenAt hsnap
  rw [← Bool.not_eq_true, TagIndex.isCurrent_snapshot_iff] at hstale ⊢
  exact fun hagree ↦ hstale (hagree.of_le_of_le htaken hle)

variable (hcode : (s.tasks tid).code = instr :: rest)
  (hexec : exec config tid choice s.shared instr = some outcome) {write : Write}
include hcode hexec

section

variable (hwf : WellFormed s) (h : LoadsWellFormed s)
  (hsnap : ((s.advance tid rest outcome).tasks other).snapshot = some (snapshot, takenAt))
include hwf h hsnap

theorem LoadsWellFormed.forSnapshot_advance {next : Instr}
    (hnext : next ∈ ((s.advance tid rest outcome).tasks other).code) :
    next.ForSnapshot snapshot := by
  have hinstr := mem_code_of_eq_cons hcode
  rcases snapshot_of_advance hsnap with hold | ⟨rfl, htaken, _⟩
  · rcases mem_code_advance hcode hnext with hnext | ⟨rfl, hafter⟩
    · exact h.forSnapshot other snapshot takenAt hold next hnext
    · exact (exec_continues hexec hafter).forSnapshot
        (h.forSnapshot other snapshot takenAt hold instr hinstr)
  · -- a snapshot just taken is that of the request whose loader comes next
    obtain ⟨request, rfl, rfl, hloader, _⟩ := exec_snapshot hexec htaken
    rw [tasks_advance_self, hloader] at hnext
    rcases mem_cons.mp hnext with rfl | hnext
    · exact ⟨rfl, rfl⟩
    · exact Instr.forSnapshot_of_not_storing (hwf.tasks.not_storing_of_mem_rest hcode rfl hnext) _

theorem LoadsWellFormed.writtenKey_advance (hwrite : write ∈ outcome.shared.writes)
    (hwriter : write.writer = other) :
    write.key = snapshot.key := by
  have hinstr := mem_code_of_eq_cons hcode
  rcases snapshot_of_advance hsnap with hold | ⟨rfl, htaken, _⟩
  · rcases (exec_storeEffect hexec).mem_writes hwrite with hwrite | ⟨hself, rfl⟩
    · exact h.writtenKey other snapshot takenAt hold write hwrite hwriter
    · subst hwriter hself
      exact h.forSnapshot write.writer snapshot takenAt hold _ hinstr
  · -- a task that takes a snapshot may still insert, so it has not inserted
    obtain ⟨request, rfl, _⟩ := exec_snapshot hexec htaken
    rcases (exec_storeEffect hexec).mem_writes hwrite with hwrite | ⟨_, hins⟩
    · cases hwf.writers.spent write hwrite (.sharedLoad request) (hwriter ▸ hinstr)
    · cases hins

end

/-- An invalidation of a key begins with its bump. -/
theorem LoadsWellFormed.advances_advance (h : LoadsWellFormed s)
    (hop : (s.tasks other).op = some (.invalidateKey key))
    (hnext : .advanceKey key ∈ ((s.advance tid rest outcome).tasks other).code) :
    ((s.advance tid rest outcome).tasks other).code = [.advanceKey key, .removeLookup key] := by
  have hold : .advanceKey key ∈ (s.tasks other).code := by
    rcases mem_code_advance hcode hnext with hnext | ⟨_, hnext⟩
    · exact hnext
    · cases (exec_continues hexec hnext).bump_eq_none
  have hshape := h.advances other key hop hold
  by_cases hother : other = tid
  · subst hother
    rw [hcode] at hshape
    cases hshape
    rw [tasks_advance_self] at hnext
    rcases mem_append.mp hnext with hnext | hnext
    · cases (exec_continues hexec hnext).bump_eq_none
    · simp at hnext
  · rwa [tasks_advance_of_ne s hother]

theorem LoadsWellFormed.advance (hwf : WellFormed s) (h : LoadsWellFormed s)
    (hroom : ∀ bump, instr.bump = some bump → s.shared.index.HasRoom) :
    LoadsWellFormed (s.advance tid rest outcome) := by
  constructor
  · intro other
    rw [startedAt_advance]
    exact (h.started other).trans (Nat.le_succ _)
  · exact fun _ _ _ hsnap _ hnext ↦ h.forSnapshot_advance hcode hexec hwf hsnap hnext
  · exact fun _ _ _ hsnap _ hwrite ↦ h.writtenKey_advance hcode hexec hwf hsnap hwrite
  · intro other snapshot takenAt hsnap
    have hclock := clock_le_exec hexec hroom
    rcases snapshot_of_advance hsnap with hold | ⟨_, htaken, _⟩
    · obtain ⟨index, key, tags, heq, hle⟩ := h.taken other snapshot takenAt hold
      exact ⟨index, key, tags, heq, hle.trans hclock⟩
    · obtain ⟨request, _, heq, _⟩ := exec_snapshot hexec htaken
      exact ⟨s.shared.index, request.key, request.options.tags, heq, hclock⟩
  · intro other op hop next hnext bump hbump
    rw [op_advance] at hop
    rcases mem_code_advance hcode hnext with hnext | ⟨_, hnext⟩
    · exact h.bumps other op hop next hnext bump hbump
    · simp [(exec_continues hexec hnext).bump_eq_none] at hbump
  · intro other key hop hnext
    rw [op_advance] at hop
    exact h.advances_advance hcode hexec hop hnext

/-- A value held after an instruction that did not insert it was held before: what is inserted has a
version that no earlier insertion has. -/
theorem holds_of_advance (hwf : WellFormed s)
    (hwrite : write ∈ s.shared.writes) (h : (s.advance tid rest outcome).Holds load write) :
    s.Holds load write := by
  obtain ⟨_, hwr, hstore⟩ := h
  refine ⟨hwrite, hwr, ?_⟩
  rcases (exec_storeEffect hexec).store_eq_some hstore with hpre | ⟨rfl, _⟩
  · exact hpre
  · exact (hwf.versions.pending_fresh _ _ _ (pending_of_insert hcode) write hwrite rfl).elim

/-- Assumes: the invalidation had made its bump before this instruction. -/
theorem Fenced.advance_of_bumped (hinv : StaleLoadInvariant s)
    (hroom : ∀ bump, instr.bump = some bump → s.shared.index.HasRoom) {invalidation : ℕ}
    (hover : s.Overtakes invalidation load snapshot) (hop : (s.tasks invalidation).op = some op)
    (hinvalidates : op.Invalidates snapshot)
    (hbump : ∀ instr ∈ (s.tasks invalidation).code, instr.bump = none) :
    outcome.shared.index.isCurrent snapshot = false ∧
    (∀ next ∈ ((s.advance tid rest outcome).tasks load).code, next.committed = false) ∧
    ∀ write, (s.advance tid rest outcome).Holds load write →
      (s.advance tid rest outcome).Removes invalidation write.key := by
  obtain ⟨takenAt, hsnap, hprev⟩ := hover
  obtain ⟨hstale, hunc, hrem⟩ := hinv.fenced load invalidation op snapshot
    ⟨takenAt, hsnap, hprev⟩ hop hinvalidates hbump
  have hinstr := mem_code_of_eq_cons hcode
  refine ⟨?_, ?_, ?_⟩
  · exact hinv.loads.not_isCurrent_mono hsnap (clock_le_exec hexec hroom) hstale
  · intro next hnext
    rcases mem_code_advance hcode hnext with hnext | ⟨rfl, hafter⟩
    · exact hunc next hnext
    · rw [← Bool.not_eq_true]
      intro hcom
      rcases (exec_continues hexec hafter).committed hcom with
        hcom | ⟨request, value, taken, rfl, hcur⟩
      · simp [hunc instr hinstr] at hcom
      · obtain ⟨rfl, _⟩ := hinv.loads.forSnapshot load snapshot takenAt hsnap _ hinstr
        simp [hstale] at hcur
  · intro write hholds
    rcases (exec_storeEffect hexec).mem_writes hholds.1 with hwrite | ⟨hwr, rfl⟩
    · have hpre := holds_of_advance hcode hexec hinv.wellFormed hwrite hholds
      refine (hrem write hpre).advance hcode hexec ?_
      exact Option.ne_none_iff_exists'.mpr ⟨_, hholds.2.2⟩
    · have hload : tid = load := hwr.symm.trans hholds.2.1
      cases hunc _ (hload ▸ hinstr)

/-- Assumes: this instruction is the bump of an operation that reaches `key`, and a bump of a key is
that of `key`. The operation goes on to remove `key`. -/
theorem removes_of_reaches (h : LoadsWellFormed s) (hbump : instr.bump = some bump)
    (hop : (s.tasks tid).op = some op) (hkey : ∀ name, bump = .advanceKey name → name = key)
    (hreaches : bump.Reaches s.shared.index key) :
    (s.advance tid rest outcome).Removes tid key := by
  have hinstr := mem_code_of_eq_cons hcode
  left
  rw [tasks_advance_self, mem_append]
  cases bump with
  | advanceKey name =>
    right
    obtain rfl := hkey name rfl
    have hadvances : instr = .advanceKey name := by
      cases instr <;> cases hbump
      rfl
    subst hadvances
    have hinvalidateKey : op = .invalidateKey name := by
      have hopbump := h.bumps tid op hop _ hinstr _ hbump
      cases op <;> cases hopbump
      rfl
    have hshape := h.advances tid name (hinvalidateKey ▸ hop) hinstr
    rw [hcode] at hshape
    cases hshape
    exact mem_singleton_self _
  | takeTag tag =>
    left
    have htakes : instr = .takeTag tag := by
      cases instr <;> cases hbump
      rfl
    subst htakes
    simp only [exec] at hexec
    split at hexec
    · rename_i keys
      split_ifs at hexec with hperm
      cases hexec
      exact mem_map_of_mem (hperm.mem_iff.mpr (TagIndex.mem_takeTag.mpr hreaches))
    · cases hexec
  | clear | register | unregister | unregisterIfVersion | reconcileMemberships =>
    exact hreaches.elim

/-- Assumes: this instruction is the invalidation's bump, and it overtakes the load cleanly. -/
theorem Fenced.advance_of_bump (hinv : StaleLoadInvariant s) (hbump : instr.bump = some bump)
    (hroom : s.shared.index.HasRoom) (hover : s.Overtakes tid load snapshot)
    (hop : (s.tasks tid).op = some op) (hinvalidates : bump.Invalidates snapshot)
    (hunc : ∀ next ∈ (s.tasks load).code, next.committed = false)
    (hreaches : ∀ write, s.Holds load write → bump.Reaches s.shared.index write.key) :
    outcome.shared.index.isCurrent snapshot = false ∧
    (∀ next ∈ ((s.advance tid rest outcome).tasks load).code, next.committed = false) ∧
    ∀ write, (s.advance tid rest outcome).Holds load write →
      (s.advance tid rest outcome).Removes tid write.key := by
  obtain ⟨hindex, hstore, hwrit⟩ := exec_bump hexec hbump
  obtain ⟨takenAt, hsnap, _⟩ := hover
  have hinstr := mem_code_of_eq_cons hcode
  refine ⟨?_, ?_, ?_⟩
  · obtain ⟨taken, key, tags, rfl, htaken⟩ := hinv.loads.taken load snapshot takenAt hsnap
    rw [← Bool.not_eq_true, TagIndex.isCurrent_snapshot_iff, hindex]
    exact IndexOp.not_agreeOn_of_invalidates hroom hinvalidates htaken (le_refl _)
  · intro next hnext
    rcases mem_code_advance hcode hnext with hnext | ⟨_, hafter⟩
    · exact hunc next hnext
    · rw [← Bool.not_eq_true]
      intro hcom
      rcases (exec_continues hexec hafter).committed hcom with
        hcom | ⟨_, _, _, rfl, _⟩
      · simp [Instr.not_committed_of_bump hbump] at hcom
      · cases hbump
  · intro write hholds
    have hpre : s.Holds load write := by
      obtain ⟨hwrite, hwr, hheld⟩ := hholds
      change write ∈ outcome.shared.writes at hwrite
      change outcome.shared.store write.key = some write.entry at hheld
      rw [hwrit] at hwrite
      rw [hstore] at hheld
      exact ⟨hwrite, hwr, hheld⟩
    refine removes_of_reaches hcode hexec hinv.loads hbump hop (fun name hname ↦ ?_)
      (hreaches write hpre)
    -- the load stored under the key of its snapshot, which is the key invalidated
    subst hname
    rwa [hinv.loads.writtenKey load snapshot takenAt hsnap write hpre.1 hpre.2.1]

theorem Fenced.advance (hinv : StaleLoadInvariant s)
    (hclean : OvertakesCleanly s (.step tid choice)) :
    Fenced (s.advance tid rest outcome) := by
  have hhead : (s.tasks tid).code.head? = some instr := by rw [hcode, List.head?_cons]
  intro load invalidation op snapshot hover hop hinvalidates hbumped
  obtain ⟨takenAt, hafter, hprev⟩ := hover
  rw [op_advance] at hop
  rw [startedAt_advance] at hprev
  have hsnap : (s.tasks load).snapshot = some (snapshot, takenAt) := by
    rcases snapshot_of_advance hafter with hold | ⟨_, _, rfl⟩
    · exact hold
    · exact (Nat.not_lt.mpr (hinv.loads.started ..) hprev).elim
  by_cases hpre : ∀ instr ∈ (s.tasks invalidation).code, instr.bump = none
  · exact Fenced.advance_of_bumped hcode hexec hinv
      (fun bump hbump ↦ (hclean instr bump hhead hbump).1) ⟨takenAt, hsnap, hprev⟩ hop
      hinvalidates hpre
  · -- the bump was ahead and is no longer, so it is the instruction that ran
    obtain ⟨bumping, hmem, hsome⟩ :
        ∃ bumping ∈ (s.tasks invalidation).code, bumping.bump ≠ none := by
      simpa using hpre
    have hself : bumping = instr := by
      by_contra hne
      exact hsome (hbumped bumping (mem_code_advance_of_ne hcode hne hmem))
    have htid : invalidation = tid := by
      by_contra hne
      rw [tasks_advance_of_ne s hne] at hbumped
      exact hsome (hbumped bumping hmem)
    subst hself htid
    obtain ⟨bump, hbump⟩ := Option.ne_none_iff_exists'.mp hsome
    obtain ⟨opBump, hopBump, hinvalidated⟩ := hinvalidates
    have hsame : opBump = bump := Option.some.inj
      (hopBump.symm.trans (hinv.loads.bumps invalidation op hop bumping hmem bump hbump))
    subst hsame
    obtain ⟨hroom, hall⟩ := hclean bumping opBump hhead hbump
    obtain ⟨hunc, hreaches⟩ := hall load snapshot ⟨takenAt, hsnap, hprev⟩ hinvalidated
    exact Fenced.advance_of_bump hcode hexec hinv hbump hroom ⟨takenAt, hsnap, hprev⟩ hop
      hinvalidated hunc hreaches

theorem StaleLoadInvariant.advance (h : StaleLoadInvariant s)
    (hclean : OvertakesCleanly s (.step tid choice)) :
    StaleLoadInvariant (s.advance tid rest outcome) where
  wellFormed := h.wellFormed.advance hcode hexec
  loads := h.loads.advance hcode hexec h.wellFormed fun bump hbump ↦
    (hclean instr bump (by rw [hcode, List.head?_cons]) hbump).1
  fenced := Fenced.advance hcode hexec h hclean

end Advance

/-! ### The invariant is kept by new calls and by the environment -/

theorem StaleLoadInvariant.start (h : StaleLoadInvariant s) (op : Op) :
    StaleLoadInvariant (s.start op) := by
  have hsnap : ∀ tid snapshot takenAt, ((s.start op).tasks tid).snapshot =
      some (snapshot, takenAt) → tid ≠ s.spawned ∧ (s.start op).tasks tid = s.tasks tid := by
    intro tid snapshot takenAt htaken
    rw [tasks_start] at htaken ⊢
    split_ifs at htaken ⊢ with htid
    exact ⟨htid, rfl⟩
  refine ⟨h.wellFormed.start op, ?_, ?_⟩
  · constructor
    · intro tid
      rw [tasks_start]
      split_ifs
      · exact Nat.le_succ _
      · exact (h.loads.started tid).trans (Nat.le_succ _)
    · intro tid snapshot takenAt htaken
      have hsame := (hsnap tid snapshot takenAt htaken).2
      rw [hsame] at htaken ⊢
      exact h.loads.forSnapshot tid snapshot takenAt htaken
    · intro tid snapshot takenAt htaken
      rw [(hsnap tid snapshot takenAt htaken).2] at htaken
      exact h.loads.writtenKey tid snapshot takenAt htaken
    · intro tid snapshot takenAt htaken
      rw [(hsnap tid snapshot takenAt htaken).2] at htaken
      exact h.loads.taken tid snapshot takenAt htaken
    · intro tid other hop instr hinstr bump hbump
      rw [tasks_start] at hop hinstr
      split_ifs at hop hinstr
      · cases hop
        exact bump_of_mem_code hinstr hbump
      · exact h.loads.bumps tid other hop instr hinstr bump hbump
    · intro tid key hop hinstr
      rw [tasks_start] at hop hinstr ⊢
      split_ifs at hop hinstr ⊢
      · cases hop
        rfl
      · exact h.loads.advances tid key hop hinstr
  · rintro load invalidation other snapshot ⟨takenAt, htaken, hprev⟩ hop hinv hbumped
    obtain ⟨_, hsame⟩ := hsnap load snapshot takenAt htaken
    by_cases hnew : invalidation = s.spawned
    · rw [tasks_start, if_pos hnew] at hop hbumped
      cases hop
      obtain ⟨bump, hbump, _⟩ := hinv
      obtain ⟨instr, hinstr, hsome⟩ := exists_bump_code hbump s.shared.observed
      simp [hbumped instr hinstr] at hsome
    · have hold : (s.start op).tasks invalidation = s.tasks invalidation := by
        rw [tasks_start, if_neg hnew]
      rw [hold] at hop hprev hbumped
      unfold Removes
      rw [hold]
      rw [hsame] at htaken ⊢
      exact h.fenced load invalidation other snapshot ⟨takenAt, htaken, hprev⟩ hop hinv hbumped

theorem StaleLoadInvariant.of_environment {s' : State} (h : StaleLoadInvariant s)
    (hwf : WellFormed s') (hmove : EnvironmentMove s s') : StaleLoadInvariant s' := by
  obtain ⟨htasks, hclock, -, hindex, -, hwrit, hstore⟩ := hmove
  refine ⟨hwf, ?_, ?_⟩
  · constructor
    · rw [htasks, hclock]
      exact h.loads.started
    · rw [htasks]
      exact h.loads.forSnapshot
    · rw [htasks, hwrit]
      exact h.loads.writtenKey
    · rw [htasks, hindex]
      exact h.loads.taken
    · rw [htasks]
      exact h.loads.bumps
    · rw [htasks]
      exact h.loads.advances
  · intro load invalidation op snapshot hover hop hinv hbump
    have hover : s.Overtakes invalidation load snapshot := by
      simpa only [Overtakes, htasks] using hover
    rw [htasks] at hop hbump ⊢
    unfold Removes
    rw [hindex, htasks]
    obtain ⟨hstale, hunc, hrem⟩ :=
      h.fenced load invalidation op snapshot hover hop hinv hbump
    refine ⟨hstale, hunc, fun write hholds ↦ hrem write ?_⟩
    obtain ⟨hwrite, hwr, hheld⟩ := hholds
    exact ⟨hwrit ▸ hwrite, hwr, hstore _ _ hheld⟩

theorem staleLoadInvariant_initial (observed : Bool) : StaleLoadInvariant (initial observed) := by
  refine ⟨wellFormed_initial .., ?_, ?_⟩
  · exact ⟨fun _ ↦ le_refl _, nofun, nofun, nofun, nofun, nofun⟩
  · intro load invalidation op snapshot _ hop
    cases hop

theorem staleLoadInvariant_of_step (config : CacheConfig) (s : State) (label : Label) (s' : State)
    (hclean : OvertakesCleanly s label) (h : StaleLoadInvariant s)
    (hstep : step config s label = some s') : StaleLoadInvariant s' :=
  step_preserves_of_wellFormed (fun _ h ↦ h.wellFormed) (fun _ op h ↦ h.start op)
    (fun _ _ _ _ _ _ hclean h hcode hexec ↦ h.advance hcode hexec hclean)
    (fun _ _ h ↦ h.of_environment) s label s' hclean h hstep

/-! ### Runs -/

/-- Assumes: a run from a fresh cache in which every generation bump overtakes cleanly. No load
leaves its value in the store once it and an invalidation that overtook it have returned. -/
theorem noStaleLoad_of_overtakesCleanly (config : CacheConfig) (observed : Bool)
    (labels : List Label) (s : State) (hrun : run (step config) (.initial observed) labels = some s)
    (hclean : Along (step config) OvertakesCleanly (.initial observed) labels) : s.NoStaleLoad :=
  (run_invariant (staleLoadInvariant_of_step config) (staleLoadInvariant_initial observed) hclean
    hrun).noStaleLoad

/-- A step of a task whose next instruction makes no bump has nothing to overtake. -/
theorem OvertakesCleanly.of_bump_eq_none {tid : ℕ} {choice : Choice}
    {rest : List Instr} (hcode : (s.tasks tid).code = instr :: rest) (hbump : instr.bump = none) :
    OvertakesCleanly s (.step tid choice) := by
  intro head bump hhead hsome
  rw [hcode, List.head?_cons, Option.some.injEq] at hhead
  simp [← hhead, hbump] at hsome

/-- A load is overtaken while its loader runs: the key is invalidated, the loader returns, and its
value is discarded. -/
def discardedLoadLabels : List Label :=
  [.start (.read "user:1" (.getOrLoad (fun _ ↦ true) {})), .step 0 .proceed, .step 0 .proceed,
    .start (.invalidateKey "user:1"), .step 1 .proceed, .step 1 .proceed,
    .step 0 (.loaded (some [1])), .step 0 .proceed]

theorem overtakesCleanly_discardedLoadLabels :
    Along (step sampleConfig) OvertakesCleanly (.initial true) discardedLoadLabels := by
  refine .cons rfl trivial ?_
  iterate 2 refine .cons rfl (.of_bump_eq_none rfl rfl) ?_
  refine .cons rfl trivial ?_
  refine .cons rfl (fun instr bump _ _ ↦ ⟨⟨Nat.zero_le _, fun resource ↦ ?_⟩, ?_⟩) ?_
  · cases resource <;> exact Nat.zero_le _
  · -- the only load is the first task, which waits for its loader and has stored nothing
    rintro load snapshot ⟨takenAt, hsnap, _⟩ _
    rcases load with _ | _ | load
    · refine ⟨fun next hnext ↦ ?_, fun write hholds ↦ by cases hholds.1⟩
      rw [mem_singleton.mp hnext]
      rfl
    · cases hsnap
    · cases hsnap
  iterate 2 refine .cons rfl (.of_bump_eq_none rfl rfl) ?_
  exact ⟨.of_bump_eq_none rfl rfl, fun _ _ ↦ trivial⟩

theorem noStaleLoad_discardedLoadLabels :
    ∃ s, run (step sampleConfig) (.initial true) discardedLoadLabels = some s ∧ s.NoStaleLoad :=
  ⟨_, rfl, noStaleLoad_of_overtakesCleanly sampleConfig true discardedLoadLabels _ rfl
    overtakesCleanly_discardedLoadLabels⟩

/-- The invalidation bumps the key's generation, and looks the key up, after the load has passed its
freshness check and before it inserts. -/
def staleLoadLabels : List Label :=
  [.start (.read "user:1" (.getOrLoad (fun _ ↦ true) {})), .step 0 .proceed, .step 0 .proceed,
    .start (.invalidateKey "user:1"),
    .step 0 (.loaded (some [1])), .step 0 .proceed,
    .step 1 .proceed, .step 1 .proceed,
    .step 0 .proceed, .step 0 .proceed, .step 0 .proceed, .step 0 .proceed, .step 0 .proceed]

/-- Both calls have returned, and the store holds the value the load read before the
invalidation. -/
theorem staleLoad_survives_invalidateKey :
    ∃ s, run (step sampleConfig) (.initial true) staleLoadLabels = some s ∧ ¬ s.NoStaleLoad := by
  refine ⟨_, rfl, fun h ↦ ?_⟩
  refine h 0 1 (.invalidateKey "user:1") ⟨0, "user:1", 0, []⟩ ⟨2, rfl, ?_⟩ rfl
    ⟨.advanceKey "user:1", rfl, rfl⟩ rfl rfl ⟨0, "user:1", ⟨[1], [], some 10, 1⟩⟩ ⟨?_, rfl, rfl⟩
  · decide
  · exact mem_singleton_self _

end HydraCache.Local
