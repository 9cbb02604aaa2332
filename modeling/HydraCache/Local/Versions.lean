import HydraCache.Local.Effects

/-!
# Every insertion has a version of its own

Versions are allocated before an entry is inserted, in a separate step, so several writers can hold
versions they have not inserted yet. `WellFormed` says that this never confuses two entries, that
what the store holds was inserted, and that a cleanup ticket names a version the store no longer
holds. It holds in every state of every run (`wellFormed_of_run`).

It also fixes the shape of a task: at most one instruction of its code can still lead to an
insertion, and none once it has inserted, so a load or a put inserts at most once.
-/

set_option autoImplicit false

namespace HydraCache.Local

open Lib

namespace State

/-- Task `tid` is about to insert `entry` under `key`. -/
def Pending (s : State) (tid : ℕ) (key : Key) (entry : CacheEntry) : Prop :=
  ∃ instr ∈ (s.tasks tid).code, instr.pendingEntry = some (key, entry)

/-- The ticket is queued, or its cleanup is about to run. -/
def Ticketed (s : State) (ticket : CleanupTicket) : Prop :=
  ticket ∈ s.shared.tickets ∨ s.Ahead (.cleanup ticket)

end State

open State

/-- Unstarted tasks are idle, and the code of a task can insert at most once. -/
structure TasksWellFormed (s : State) : Prop where
  idle : ∀ tid, s.spawned ≤ tid → s.tasks tid = {}
  storing : ∀ tid, (s.tasks tid).code.countP Instr.storing ≤ 1

/-- Insertions made and insertions to come have different versions, below the next one. -/
structure VersionsWellFormed (s : State) : Prop where
  written : ∀ key entry, s.shared.store key = some entry →
    ∃ write ∈ s.shared.writes, write.key = key ∧ write.entry = entry
  writes_lt : ∀ write ∈ s.shared.writes, write.entry.version < s.shared.nextEntryVersion
  writes_inj : ∀ write ∈ s.shared.writes, ∀ other ∈ s.shared.writes,
    write.entry.version = other.entry.version → write = other
  pending_lt : ∀ tid key entry, s.Pending tid key entry →
    entry.version < s.shared.nextEntryVersion
  pending_fresh : ∀ tid key entry, s.Pending tid key entry →
    ∀ write ∈ s.shared.writes, write.entry.version ≠ entry.version
  pending_inj : ∀ tid key entry tid' key' entry', s.Pending tid key entry →
    s.Pending tid' key' entry' → entry.version = entry'.version → tid = tid'

/-- A ticket names a version that was inserted and is no longer in the store. -/
structure TicketsWellFormed (s : State) : Prop where
  written : ∀ ticket, s.Ticketed ticket →
    ∃ write ∈ s.shared.writes, write.entry.version = ticket.version
  dead : ∀ ticket, s.Ticketed ticket → ∀ key entry, s.shared.store key = some entry →
    entry.version ≠ ticket.version

/-- A call that has inserted an entry inserts no other. -/
structure WritersWellFormed (s : State) : Prop where
  started : ∀ write ∈ s.shared.writes, write.writer < s.spawned
  spent : ∀ write ∈ s.shared.writes, ∀ instr ∈ (s.tasks write.writer).code, instr.storing = false
  once : ∀ write ∈ s.shared.writes, ∀ other ∈ s.shared.writes,
    write.writer = other.writer → write = other

structure WellFormed (s : State) : Prop where
  tasks : TasksWellFormed s
  writers : WritersWellFormed s
  versions : VersionsWellFormed s
  tickets : TicketsWellFormed s

/-! ### Tasks -/

/-- The code of an operation holds at most one body that may insert. -/
theorem countP_storing_code (observed : Bool) (op : Op) :
    (op.code observed).countP Instr.storing ≤ 1 := by
  cases op <;> cases observed <;> simp [Op.code, Instr.storing]

variable {s : State} {instr : Instr} {s' : State}

theorem TasksWellFormed.start (h : TasksWellFormed s) (op : Op) : TasksWellFormed (s.start op) := by
  constructor
  · intro tid htid
    have hlt : s.spawned < tid := htid
    rw [tasks_start, if_neg (Nat.ne_of_gt hlt)]
    exact h.idle tid (Nat.le_of_lt hlt)
  · intro tid
    rw [tasks_start]
    split_ifs
    · exact countP_storing_code s.shared.observed op
    · exact h.storing tid

theorem WritersWellFormed.start (h : WritersWellFormed s) (op : Op) :
    WritersWellFormed (s.start op) where
  started write hwrite := Nat.lt_succ_of_lt (h.started write hwrite)
  spent write hwrite := by
    rw [tasks_start, if_neg (Nat.ne_of_lt (h.started write hwrite))]
    exact h.spent write hwrite
  once := h.once

theorem Write.eq_of_insert {write other : Write} (hwriter : write.writer = other.writer)
    (h : Instr.insert write.key write.entry = .insert other.key other.entry) : write = other := by
  cases write
  cases other
  simp_all

section Advance

variable {config : CacheConfig} {s : State} {tid : ℕ} {choice : Choice}
  {rest : List Instr} {outcome : Outcome}

section Code

variable (hcode : (s.tasks tid).code = instr :: rest)
include hcode

/-- A task with code has started. -/
theorem TasksWellFormed.lt_spawned (h : TasksWellFormed s) : tid < s.spawned := by
  by_contra hge
  simp [h.idle tid (Nat.le_of_not_lt hge)] at hcode

/-- Behind an instruction that may insert there is no other one. -/
theorem TasksWellFormed.not_storing_of_mem_rest (h : TasksWellFormed s)
    (hinstr : instr.storing = true) {next : Instr} (hnext : next ∈ rest) :
    next.storing = false := by
  have hcount : (instr :: rest).countP Instr.storing ≤ 1 := hcode ▸ h.storing tid
  rw [List.countP_cons_of_pos hinstr] at hcount
  have hzero : rest.countP Instr.storing = 0 := by omega
  simpa using List.countP_eq_zero.mp hzero next hnext

theorem TasksWellFormed.advance (h : TasksWellFormed s)
    (hexec : exec config tid choice s.shared instr = some outcome) :
    TasksWellFormed (s.advance tid rest outcome) := by
  constructor
  · intro other hother
    have hne : other ≠ tid := Nat.ne_of_gt (Nat.lt_of_lt_of_le (h.lt_spawned hcode) hother)
    rw [tasks_advance_of_ne s hne]
    exact h.idle other hother
  · intro other
    by_cases hother : other = tid
    · subst hother
      rw [tasks_advance_self, List.countP_append]
      have hcount : (instr :: rest).countP Instr.storing ≤ 1 := hcode ▸ h.storing other
      have hnext := exec_countP_storing hexec
      rw [List.countP_cons] at hcount
      omega
    · rw [tasks_advance_of_ne s hother]
      exact h.storing other

theorem WritersWellFormed.advance (htasks : TasksWellFormed s) (h : WritersWellFormed s)
    (hexec : exec config tid choice s.shared instr = some outcome) :
    WritersWellFormed (s.advance tid rest outcome) := by
  have hinstr := mem_code_of_eq_cons hcode
  have hcases (write : Write) (hwrite : write ∈ outcome.shared.writes) :=
    (exec_storeEffect hexec).mem_writes hwrite
  -- a task that inserts now has not inserted before
  have hnew {write other : Write} (hwrite : write ∈ s.shared.writes)
      (hinsert : instr = .insert other.key other.entry) : write.writer ≠ tid := by
    rintro rfl
    cases hinsert ▸ h.spent write hwrite instr hinstr
  constructor
  · intro write hwrite
    rcases hcases write hwrite with hold | ⟨rfl, -⟩
    · exact h.started write hold
    · exact (htasks.lt_spawned hcode :)
  · intro write hwrite next hnext
    rcases hcases write hwrite with hold | ⟨rfl, rfl⟩
    · rcases mem_code_advance hcode hnext with hnext | ⟨rfl, hafter⟩
      · exact h.spent write hold next hnext
      · have hcount := exec_countP_storing hexec
        rw [h.spent write hold instr hinstr] at hcount
        simpa using List.countP_eq_zero.mp (Nat.le_zero.mp hcount) next hafter
    · rw [tasks_advance_self] at hnext
      rcases List.mem_append.mp hnext with hnext | hnext
      · cases hexec
        simp only [List.mem_cons, List.not_mem_nil, or_false] at hnext
        rcases hnext with rfl | rfl <;> rfl
      · exact htasks.not_storing_of_mem_rest hcode rfl hnext
  · intro write hwrite other hother hsame
    rcases hcases write hwrite with hold | ⟨hwriter, hinsert⟩
    · rcases hcases other hother with hold' | ⟨hwriter', hinsert'⟩
      · exact h.once write hold other hold' hsame
      · exact absurd (hsame.trans hwriter') (hnew hold hinsert')
    · rcases hcases other hother with hold' | ⟨-, hinsert'⟩
      · exact absurd (hsame.symm.trans hwriter) (hnew hold' hinsert)
      · exact Write.eq_of_insert hsame (hinsert.symm.trans hinsert')

end Code

/-! ### Versions -/

variable {key : Key} {entry : CacheEntry}

theorem Instr.storing_of_pendingEntry
    (h : instr.pendingEntry = some (key, entry)) : instr.storing = true := by
  cases instr <;> first | rfl | cases h

/-- No operation starts out with an entry to insert. -/
theorem pendingEntry_code (observed : Bool) (op : Op) :
    ∀ instr ∈ op.code observed, instr.pendingEntry = none := by
  cases op <;> cases observed <;> simp [Op.code, Instr.pendingEntry]

/-- What an instruction continues with is about to insert only what the instruction itself was
about to insert, or the entry a put has just built. -/
theorem Continues.pendingEntry {shared : Shared} {instr next : Instr}
    (h : Continues config shared instr next) (hpend : next.pendingEntry = some (key, entry)) :
    (instr.pendingEntry = some (key, entry) ∧ ∀ key entry, instr ≠ .insert key entry) ∨
      ∃ request value, instr = .put request value ∧ key = request.key ∧
        entry = shared.newEntry config request value := by
  have hrem {name : Key} (h : RemovalCode name next) : False := by
    cases h <;> cases hpend
  cases h with
  | lookup h =>
    cases h with
    | removal _ _ _ h => exact (hrem h).elim
    | load | miss => cases hpend
  | joinFailed h | loadFailed h | putFailed h =>
    exact (hrem (removalCode_of_mem_failedLoad h).1).elim
  | removeFound _ h => exact (hrem (removalCode_of_mem_removeEntry h)).elim
  | putInsert request value | putReplace request value =>
    cases hpend
    exact .inr ⟨request, value, rfl, rfl, rfl⟩
  | replaceInsert | replaceFound | replaced =>
    cases hpend
    exact .inl ⟨rfl, fun _ _ h ↦ by cases h⟩
  | _ => cases hpend

theorem pending_of_insert
    (hcode : (s.tasks tid).code = .insert key entry :: rest) : s.Pending tid key entry :=
  ⟨_, mem_code_of_eq_cons hcode, rfl⟩

/-- No operation starts out with a cleanup to run. -/
theorem ticket_code (observed : Bool) (op : Op) :
    ∀ instr ∈ op.code observed, instr.ticket = none := by
  cases op <;> cases observed <;> simp [Op.code, Instr.ticket]

variable (hcode : (s.tasks tid).code = instr :: rest)
  (hexec : exec config tid choice s.shared instr = some outcome)
include hcode hexec

/-- What is about to be inserted after an instruction was so before, and was not inserted by it, or
is the entry a put has just built. -/
theorem pending_of_advance (htasks : TasksWellFormed s) {other : ℕ}
    (h : (s.advance tid rest outcome).Pending other key entry) :
    (s.Pending other key entry ∧ (other = tid → ∀ key entry, instr ≠ .insert key entry)) ∨
      (other = tid ∧ entry.version = s.shared.nextEntryVersion ∧
        outcome.shared.nextEntryVersion = s.shared.nextEntryVersion + 1) := by
  obtain ⟨next, hnext, hpend⟩ := h
  have hstoring := Instr.storing_of_pendingEntry hpend
  by_cases hother : other = tid
  · subst hother
    rw [tasks_advance_self] at hnext
    rcases List.mem_append.mp hnext with hnext | hnext
    · rcases (exec_continues hexec hnext).pendingEntry hpend with
        ⟨hsame, hne⟩ | ⟨request, value, rfl, rfl, rfl⟩
      · exact .inl ⟨⟨instr, mem_code_of_eq_cons hcode, hsame⟩, fun _ ↦ hne⟩
      · refine .inr ⟨rfl, rfl, ?_⟩
        simp only [exec] at hexec
        split at hexec <;> cases hexec
        · cases (removalCode_of_mem_failedLoad hnext).1 <;> cases hpend
        · rfl
    · refine .inl ⟨⟨next, by rw [hcode]; exact List.mem_cons_of_mem _ hnext, hpend⟩, ?_⟩
      rintro - key entry rfl
      simp [htasks.not_storing_of_mem_rest hcode rfl hnext] at hstoring
  · rw [tasks_advance_of_ne s hother] at hnext
    exact .inl ⟨⟨next, hnext, hpend⟩, fun h ↦ (hother h).elim⟩

theorem VersionsWellFormed.advance (htasks : TasksWellFormed s) (h : VersionsWellFormed s) :
    VersionsWellFormed (s.advance tid rest outcome) := by
  have hmono := exec_nextEntryVersion hexec
  have hins {key : Key} {entry : CacheEntry} (hinstr : instr = .insert key entry) :
      s.Pending tid key entry := by
    subst hinstr
    exact pending_of_insert hcode
  have heffect := exec_storeEffect hexec
  have hwrite : ∀ write ∈ outcome.shared.writes, write ∈ s.shared.writes ∨
      write.writer = tid ∧ instr = .insert write.key write.entry := fun _ ↦ heffect.mem_writes
  constructor
  · intro key entry hstore
    rcases heffect.store_eq_some hstore with hpre | ⟨_, hmem⟩
    · obtain ⟨write, hmem, hwrit⟩ := h.written key entry hpre
      exact ⟨write, heffect.writes_subset hmem, hwrit⟩
    · exact ⟨_, hmem, rfl, rfl⟩
  · intro write hmem
    rcases hwrite write hmem with hmem | ⟨_, hinstr⟩
    · exact Nat.lt_of_lt_of_le (h.writes_lt write hmem) hmono
    · exact Nat.lt_of_lt_of_le (h.pending_lt _ _ _ (hins hinstr)) hmono
  · intro write hmem other hother hver
    rcases hwrite write hmem with hmem | ⟨hwriter, hinstr⟩
    · rcases hwrite other hother with hother | ⟨_, hinstr'⟩
      · exact h.writes_inj write hmem other hother hver
      · exact (h.pending_fresh _ _ _ (hins hinstr') write hmem hver).elim
    · rcases hwrite other hother with hother | ⟨hwriter', hinstr'⟩
      · exact (h.pending_fresh _ _ _ (hins hinstr) other hother hver.symm).elim
      · exact Write.eq_of_insert (hwriter.trans hwriter'.symm) (hinstr.symm.trans hinstr')
  · intro other key entry hpend
    rcases pending_of_advance hcode hexec htasks hpend with ⟨hold, _⟩ | ⟨_, hver, _⟩
    · exact Nat.lt_of_lt_of_le (h.pending_lt _ _ _ hold) hmono
    · change entry.version < outcome.shared.nextEntryVersion
      omega
  · intro other key entry hpend write hmem hver
    rcases pending_of_advance hcode hexec htasks hpend with ⟨hold, hne⟩ | ⟨_, hnew, _⟩
    · rcases hwrite write hmem with hmem | ⟨_, hinstr⟩
      · exact h.pending_fresh _ _ _ hold write hmem hver
      · exact hne (h.pending_inj _ _ _ _ _ _ hold (hins hinstr) hver.symm) _ _ hinstr
    · rcases hwrite write hmem with hmem | ⟨_, hinstr⟩
      · have hlt := h.writes_lt write hmem
        omega
      · have hlt := h.pending_lt _ _ _ (hins hinstr)
        omega
  · intro first key entry second key' entry' hfirst hsnd hver
    rcases pending_of_advance hcode hexec htasks hfirst with ⟨hold, _⟩ | ⟨htid, _, _⟩
    · rcases pending_of_advance hcode hexec htasks hsnd with ⟨hold', _⟩ | ⟨_, _, _⟩
      · exact h.pending_inj _ _ _ _ _ _ hold hold' hver
      · have hlt := h.pending_lt _ _ _ hold
        omega
    · rcases pending_of_advance hcode hexec htasks hsnd with ⟨hold', _⟩ | ⟨htid', _, _⟩
      · have hlt := h.pending_lt _ _ _ hold'
        omega
      · rw [htid, htid']

/-! ### Tickets -/

/-- A cleanup that is about to run after an instruction was so before, or its ticket was queued. -/
theorem ticketed_of_advance {ticket : CleanupTicket}
    (h : (s.advance tid rest outcome).Ticketed ticket) : s.Ticketed ticket := by
  rcases h with h | ⟨other, h⟩
  · exact .inl (mem_tickets_of_exec hexec h)
  · rcases mem_code_advance hcode h with h | ⟨_, hnext⟩
    · exact .inr ⟨other, h⟩
    · have hrem {name : Key} (h : RemovalCode name (.cleanup ticket)) : False := by cases h
      generalize hclean : Instr.cleanup ticket = next at hnext
      cases exec_continues hexec hnext with
      | drainCleanup hqueue =>
        cases hclean
        exact .inl hqueue
      | lookup h =>
        subst hclean
        cases h with
        | removal _ _ _ h => exact (hrem h).elim
      | joinFailed h | loadFailed h | putFailed h =>
        subst hclean
        exact (hrem (removalCode_of_mem_failedLoad h).1).elim
      | removeFound _ h =>
        subst hclean
        exact (hrem (removalCode_of_mem_removeEntry h)).elim
      | _ => cases hclean

theorem TicketsWellFormed.advance (hvers : VersionsWellFormed s) (h : TicketsWellFormed s) :
    TicketsWellFormed (s.advance tid rest outcome) := by
  constructor
  · intro ticket htick
    obtain ⟨write, hmem, hver⟩ := h.written ticket (ticketed_of_advance hcode hexec htick)
    exact ⟨write, (exec_storeEffect hexec).writes_subset hmem, hver⟩
  · intro ticket htick key entry hstore
    have hold := ticketed_of_advance hcode hexec htick
    rcases (exec_storeEffect hexec).store_eq_some hstore with hpre | ⟨rfl, _⟩
    · exact h.dead ticket hold key entry hpre
    · obtain ⟨write, hmem, hver⟩ := h.written ticket hold
      rw [← hver]
      exact (hvers.pending_fresh _ _ _ (pending_of_insert hcode) write hmem).symm

theorem WellFormed.advance (h : WellFormed s) : WellFormed (s.advance tid rest outcome) where
  tasks := h.tasks.advance hcode hexec
  writers := h.writers.advance hcode h.tasks hexec
  versions := h.versions.advance hcode hexec h.tasks
  tickets := h.tickets.advance hcode hexec h.versions

end Advance

/-! ### Every step -/

theorem mem_code_start {op : Op} {tid : ℕ} (h : instr ∈ ((s.start op).tasks tid).code) :
    instr ∈ (s.tasks tid).code ∨ instr ∈ op.code s.shared.observed := by
  rw [tasks_start] at h
  split_ifs at h
  · exact .inr h
  · exact .inl h

/-- Assumes: a state with the same insertions, no more pending ones, and no entry in the store that
was not there. Versions stay well formed. -/
theorem VersionsWellFormed.mono (h : VersionsWellFormed s)
    (hstore : ∀ key entry, s'.shared.store key = some entry → s.shared.store key = some entry)
    (hwrit : s'.shared.writes = s.shared.writes)
    (hnext : s'.shared.nextEntryVersion = s.shared.nextEntryVersion)
    (hpend : ∀ tid key entry, s'.Pending tid key entry → s.Pending tid key entry) :
    VersionsWellFormed s' := by
  constructor
  · intro key entry hentry
    rw [hwrit]
    exact h.written key entry (hstore key entry hentry)
  · rw [hwrit, hnext]
    exact h.writes_lt
  · rw [hwrit]
    exact h.writes_inj
  · intro tid key entry hp
    rw [hnext]
    exact h.pending_lt tid key entry (hpend _ _ _ hp)
  · intro tid key entry hp
    rw [hwrit]
    exact h.pending_fresh tid key entry (hpend _ _ _ hp)
  · intro tid key entry tid' key' entry' hp hp'
    exact h.pending_inj _ _ _ _ _ _ (hpend _ _ _ hp) (hpend _ _ _ hp')

theorem TicketsWellFormed.mono (h : TicketsWellFormed s)
    (hstore : ∀ key entry, s'.shared.store key = some entry → s.shared.store key = some entry)
    (hwrit : s'.shared.writes = s.shared.writes)
    (hticks : ∀ ticket, s'.Ticketed ticket → s.Ticketed ticket) : TicketsWellFormed s' := by
  constructor
  · intro ticket htick
    rw [hwrit]
    exact h.written ticket (hticks ticket htick)
  · intro ticket htick key entry hentry
    exact h.dead ticket (hticks ticket htick) key entry (hstore key entry hentry)

theorem WellFormed.start (h : WellFormed s) (op : Op) : WellFormed (s.start op) where
  tasks := h.tasks.start op
  writers := h.writers.start op
  versions := by
    refine h.versions.mono (fun _ _ hentry ↦ hentry) rfl rfl ?_
    rintro tid key entry ⟨instr, hinstr, hpend⟩
    rcases mem_code_start hinstr with hinstr | hinstr
    · exact ⟨instr, hinstr, hpend⟩
    · simp [pendingEntry_code _ op instr hinstr] at hpend
  tickets := by
    refine h.tickets.mono (fun _ _ hentry ↦ hentry) rfl ?_
    rintro ticket (htick | ⟨tid, htick⟩)
    · exact .inl htick
    · rcases mem_code_start htick with htick | htick
      · exact .inr ⟨tid, htick⟩
      · cases ticket_code _ op _ htick

theorem WellFormed.elapse (h : WellFormed s) (time : Instant) :
    WellFormed { s with shared := { s.shared with now := s.shared.now + time } } where
  tasks := ⟨h.tasks.idle, h.tasks.storing⟩
  writers := ⟨h.writers.started, h.writers.spent, h.writers.once⟩
  versions := h.versions.mono (fun _ _ hentry ↦ hentry) rfl rfl fun _ _ _ hp ↦ hp
  tickets := h.tickets.mono (fun _ _ hentry ↦ hentry) rfl fun _ ht ↦ ht

theorem store_of_evict {store : Key → Option CacheEntry} {key name : Key} {entry : CacheEntry}
    (h : Function.update store key none name = some entry) : store name = some entry := by
  rw [Function.update_apply] at h
  split_ifs at h
  exact h

theorem WellFormed.evict (h : WellFormed s) (key : Key) : WellFormed { s with
      shared := { s.shared with store := Function.update s.shared.store key none } } where
  tasks := ⟨h.tasks.idle, h.tasks.storing⟩
  writers := ⟨h.writers.started, h.writers.spent, h.writers.once⟩
  versions := h.versions.mono (fun _ _ ↦ store_of_evict) rfl rfl fun _ _ _ hp ↦ hp
  tickets := h.tickets.mono (fun _ _ ↦ store_of_evict) rfl fun _ ht ↦ ht

/-- Assumes: a report of an inserted entry that the store no longer holds under its key. Since its
version is that of no other entry, the store holds it nowhere. -/
theorem WellFormed.observe (h : WellFormed s) {write : Write}
    (hwrite : write ∈ s.shared.writes) (habsent : s.shared.store write.key ≠ some write.entry) :
    WellFormed { s with shared := { s.shared with
      observer := s.shared.observer.map fun observer ↦
        observer.observe write.key write.entry } } where
  tasks := ⟨h.tasks.idle, h.tasks.storing⟩
  writers := ⟨h.writers.started, h.writers.spent, h.writers.once⟩
  versions := h.versions.mono (fun _ _ hentry ↦ hentry) rfl rfl fun _ _ _ hp ↦ hp
  tickets := by
    have hcases : ∀ ticket, Ticketed { s with shared := { s.shared with
        observer := s.shared.observer.map fun observer ↦
          observer.observe write.key write.entry } } ticket →
        s.Ticketed ticket ∨ ticket.version = write.entry.version := by
      rintro ticket (htick | htick)
      · simp only [Shared.tickets, Option.map_map] at htick
        cases hobs : s.shared.observer with
        | none => simp [hobs] at htick
        | some observer =>
          simp only [hobs, Option.map_some, Option.getD_some, Function.comp_apply] at htick
          rcases RemovalObserver.mem_queue_observe htick with hold | rfl
          · exact .inl (.inl (by simpa [Shared.tickets, hobs] using hold))
          · exact .inr rfl
      · exact .inl (.inr htick)
    constructor
    · intro ticket htick
      rcases hcases ticket htick with htick | hver
      · exact h.tickets.written ticket htick
      · exact ⟨write, hwrite, hver.symm⟩
    · intro ticket htick key entry hentry hver
      rcases hcases ticket htick with htick | htick
      · exact h.tickets.dead ticket htick key entry hentry hver
      · obtain ⟨other, hother, rfl, rfl⟩ := h.versions.written key entry hentry
        have hsame := h.versions.writes_inj other hother write hwrite (hver.trans htick)
        subst hsame
        exact habsent hentry

/-- What a move of the environment leaves as it is: time passed, an entry was evicted, or a removal
was reported. -/
structure EnvironmentMove (s s' : State) : Prop where
  tasks : s'.tasks = s.tasks
  clock : s'.clock = s.clock
  spawned : s'.spawned = s.spawned
  index : s'.shared.index = s.shared.index
  observed : s'.shared.observed = s.shared.observed
  writes : s'.shared.writes = s.shared.writes
  store : ∀ key entry, s'.shared.store key = some entry → s.shared.store key = some entry

/-- Assumes: an invariant of well-formed states that new calls, the instructions taken under `C` and
the moves of the environment keep. Every step under `C` keeps it. -/
theorem step_preserves_of_wellFormed {config : CacheConfig} {C : State → Label → Prop}
    {I : State → Prop} (hwf : ∀ s, I s → WellFormed s) (hstart : ∀ s op, I s → I (s.start op))
    (hadv : ∀ s tid choice instr rest outcome, C s (.step tid choice) → I s →
      (s.tasks tid).code = instr :: rest → exec config tid choice s.shared instr = some outcome →
      I (s.advance tid rest outcome))
    (hmove : ∀ s s', I s → WellFormed s' → EnvironmentMove s s' → I s') (s : State) (label : Label)
    (s' : State) (hC : C s label) (hI : I s) (hstep : step config s label = some s') : I s' := by
  refine step_preserves (fun _ ↦ True) (fun _ _ _ ↦ trivial) (fun _ _ ↦ trivial)
    (fun s op _ h ↦ hstart s op h) hadv
    (fun s time h ↦ hmove _ _ h ((hwf s h).elapse time) ?_)
    (fun s key _ h ↦ hmove _ _ h ((hwf s h).evict key) ?_)
    (fun s write hwrite habsent h ↦ hmove _ _ h ((hwf s h).observe hwrite habsent) ?_)
    s label s' hC hI hstep
  · exact ⟨rfl, rfl, rfl, rfl, rfl, rfl, fun _ _ hentry ↦ hentry⟩
  · exact ⟨rfl, rfl, rfl, rfl, rfl, rfl, fun _ _ ↦ store_of_evict⟩
  · exact ⟨rfl, rfl, rfl, rfl, by simp [Shared.observed], rfl, fun _ _ hentry ↦ hentry⟩

theorem wellFormed_initial (observed : Bool) : WellFormed (initial observed) where
  tasks := ⟨fun _ _ ↦ rfl, fun _ ↦ Nat.zero_le _⟩
  writers := ⟨nofun, nofun, nofun⟩
  versions := by
    have hpend : ∀ tid key entry, ¬ (initial observed).Pending tid key entry := by
      rintro tid key entry ⟨instr, hinstr, _⟩
      cases hinstr
    constructor
    · intro key entry hentry
      cases hentry
    · intro write hwrite
      cases hwrite
    · intro write hwrite
      cases hwrite
    · exact fun tid key entry hp ↦ (hpend tid key entry hp).elim
    · exact fun tid key entry hp ↦ (hpend tid key entry hp).elim
    · exact fun tid key entry _ _ _ hp ↦ (hpend tid key entry hp).elim
  tickets := by
    have hticks : ∀ ticket, ¬ (initial observed).Ticketed ticket := by
      rintro ticket (htick | ⟨tid, htick⟩)
      · cases observed <;> cases htick
      · cases htick
    exact ⟨fun ticket h ↦ (hticks ticket h).elim, fun ticket h ↦ (hticks ticket h).elim⟩

/-- In no run do two insertions get one version, does a call insert twice, or does a ticket name a
stored entry. -/
theorem wellFormed_of_run {config : CacheConfig} {observed : Bool} {labels : List Label}
    (hrun : run (step config) (initial observed) labels = some s) : WellFormed s := by
  refine invariant_of_run (fun s label s' ↦ ?_) (wellFormed_initial observed) hrun
  exact step_preserves_of_wellFormed (C := fun _ _ ↦ True) (fun _ ↦ id) (fun _ op h ↦ h.start op)
    (fun _ _ _ _ _ _ _ h ↦ h.advance) (fun _ _ _ hwf _ ↦ hwf) s label s' trivial

/-- An entry is put and replaced by another put, and its removal is reported. -/
def replacingLabels : List Label :=
  .start (.put "a" [1] {}) :: List.replicate 3 (.step 0 .proceed) ++
    .start (.put "a" [2] {}) :: List.replicate 3 (.step 1 .proceed) ++
    [.observe "a" ((initial true).shared.newEntry sampleConfig ⟨"a", {}, none⟩ [1])]

theorem wellFormed_of_run_replacing :
    ∃ s, run (step sampleConfig) (initial true) replacingLabels = some s ∧
      s.shared.writes.map (fun write ↦ (write.writer, write.entry.version)) = [(1, 2), (0, 1)] ∧
      s.shared.tickets.map CleanupTicket.version = [1] ∧ WellFormed s := by
  have hruns : (run (step sampleConfig) (initial true) replacingLabels).isSome := rfl
  obtain ⟨s, hrun⟩ := Option.isSome_iff_exists.mp hruns
  refine ⟨s, hrun, ?_, ?_, wellFormed_of_run hrun⟩ <;>
  · cases hrun
    rfl

end HydraCache.Local
