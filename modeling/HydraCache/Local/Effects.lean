import HydraCache.Local.Machine

/-!
# What an instruction can do

One statement per aspect of an instruction's effect, so that an invariant of the machine is argued
from these and not from the definition of `exec`: on the store and the insertions made
(`exec_storeEffect`), on the index (`exec_indexEffect`), on the cleanup tickets
(`mem_tickets_of_exec`), and on the code that follows (`exec_pendingEntry`, `exec_countP_storing`,
`exec_snapshot`).

`step_preserves` is the rule that combines them with the moves of the environment: what a new task,
a task's instruction and each move of the environment keep is kept by every step.
-/

set_option autoImplicit false

namespace HydraCache.Local

open Lib List

/-! ### Kinds of instructions -/

namespace Instr

/-- The instruction is part of a body that may still come to insert a value. -/
def storing : Instr → Bool
  | lookup .. | refreshMiss .. | sharedLoad .. | loader .. | checkFresh .. | put ..
  | replaceLookup .. | replaceUnregister .. | insert .. => true
  | _ => false

/-- The entry the instruction is about to insert, with its key. -/
def pendingEntry : Instr → Option (Key × CacheEntry)
  | replaceLookup key entry | replaceUnregister key _ entry | insert key entry => some (key, entry)
  | _ => none

/-- The ticket whose cleanup is about to run. -/
def ticket : Instr → Option CleanupTicket
  | cleanup ticket => some ticket
  | _ => none

end Instr

/-- The tickets in the observer's queue. -/
def Shared.tickets (s : Shared) : List CleanupTicket :=
  (s.observer.map RemovalObserver.queue).getD []

/-! ### The code of reads and removals -/

/-- What the removal of an entry of `key` consists of. -/
inductive RemovalCode (key : Key) : Instr → Prop where
  | invalidate : RemovalCode key (.invalidate key)
  | drain : RemovalCode key .drain
  | unregister (tags : List Tag) : RemovalCode key (.unregister key tags)

variable {observed : Bool} {instr : Instr} {config : CacheConfig} {found : Option CacheEntry}
  {rest : List Instr} {choice : Choice} {now : Instant} {key : Key}

theorem removalCode_of_mem_removeEntry {entry : CacheEntry}
    (h : instr ∈ removeEntry observed key entry) : RemovalCode key instr := by
  cases observed with
  | false =>
    simp only [removeEntry, mem_cons, not_mem_nil, or_false] at h
    rcases h with rfl | rfl
    · exact .invalidate
    · exact .unregister _
  | true =>
    simp only [removeEntry, mem_cons, not_mem_nil, or_false] at h
    rcases h with rfl | rfl
    · exact .invalidate
    · exact .drain

/-- A failed load removes only an entry to fall back to that does not decode. -/
theorem removalCode_of_mem_failedLoad {request : Request}
    (h : instr ∈ failedLoad observed request) :
    RemovalCode request.key instr ∧
      ∃ stale, request.fallback = some stale ∧ stale.decodes stale.entry.value = false := by
  unfold failedLoad at h
  split at h
  · cases h
  · rename_i stale hstale
    split_ifs at h with hdecs
    · cases h
    · have hrem : instr ∈ removeEntry observed request.key stale.entry := by
        simpa using h
      exact ⟨removalCode_of_mem_removeEntry hrem, stale, hstale, by simpa using hdecs⟩

/-- The entry a read found is one it removes. -/
def Removable (how : Read) (now : Instant) (entry : CacheEntry) : Prop :=
  entry.isExpired now = true ∨ how.decodes entry.value = false

/-- What the code after a lookup of `key` consists of. -/
inductive AfterLookup (now : Instant) (key : Key) (how : Read) (found : Option CacheEntry) :
    Instr → Prop where
  | removal {instr : Instr} (entry : CacheEntry) : found = some entry → Removable how now entry →
      RemovalCode key instr → AfterLookup now key how found instr
  | load (options : CacheOptions) : AfterLookup now key how found (.sharedLoad ⟨key, options, none⟩)
  | miss (options : CacheOptions) (refresh : RefreshOptions) (stale : Fallback) :
      found = some stale.entry → stale.entry.isExpired now = true →
      AfterLookup now key how found (.refreshMiss key options refresh stale)

theorem mem_getCode {how : Read} {onMiss : List Instr}
    (hmiss : ∀ next ∈ onMiss, AfterLookup now key how found next)
    (h : instr ∈ getCode observed now key how.decodes onMiss found) :
    AfterLookup now key how found instr := by
  unfold getCode at h
  split at h
  · exact hmiss instr h
  · rename_i entry
    split_ifs at h with hexp hdecs
    · rcases mem_append.mp h with h | h
      · exact .removal entry rfl (.inl hexp) (removalCode_of_mem_removeEntry h)
      · exact hmiss instr h
    · cases h
    · exact .removal entry rfl (.inr (by simpa using hdecs)) (removalCode_of_mem_removeEntry h)

theorem mem_after {how : Read} (h : instr ∈ (how.after config observed now key found).1) :
    AfterLookup now key how found instr := by
  cases how with
  | get | getEncoded | containsKey => exact mem_getCode (fun _ hnext ↦ by cases hnext) h
  | getOrLoad _ options =>
    refine mem_getCode (fun next hnext ↦ ?_) h
    rw [mem_singleton.mp hnext]
    exact .load options
  | getOrLoadWithRefresh _ options =>
    cases found with
    | none =>
      rw [mem_singleton.mp h]
      exact .load options
    | some entry =>
      simp only [Read.after, refreshCode] at h
      split_ifs at h with hfresh hdecs hdecs hwindow hdecs <;>
        simp only [mem_append, mem_singleton, not_mem_nil] at h
      · exact .removal entry rfl (.inr (by simpa using hdecs)) (removalCode_of_mem_removeEntry h)
      · have hexp : entry.isExpired now = true := by simpa using hfresh
        rcases h with (h | h) | rfl
        · exact .removal entry rfl (.inl hexp) (removalCode_of_mem_removeEntry h)
        · exact .removal entry rfl (.inl hexp) (removalCode_of_mem_removeEntry h)
        · exact .miss _ _ _ rfl hexp
      · have hexp : entry.isExpired now = true := by simpa using hfresh
        rcases h with h | rfl
        · exact .removal entry rfl (.inl hexp) (removalCode_of_mem_removeEntry h)
        · exact .miss _ _ _ rfl hexp

@[simp] theorem countP_storing_removeEntry (observed : Bool) (key : Key) (entry : CacheEntry) :
    (removeEntry observed key entry).countP Instr.storing = 0 := by
  cases observed <;> rfl

@[simp] theorem countP_storing_failedLoad (observed : Bool) (request : Request) :
    (failedLoad observed request).countP Instr.storing = 0 := by
  unfold failedLoad
  split
  · rfl
  · split_ifs <;> simp

theorem countP_storing_getCode (observed : Bool) (now : Instant) (key : Key)
    (decodes : Bytes → Bool) (onMiss : List Instr) (found : Option CacheEntry) :
    (getCode observed now key decodes onMiss found).countP Instr.storing ≤
      onMiss.countP Instr.storing := by
  unfold getCode
  split
  · exact le_refl _
  · split_ifs <;> simp

theorem countP_storing_after (config : CacheConfig) (observed : Bool) (now : Instant) (key : Key)
    (found : Option CacheEntry) (how : Read) :
    (how.after config observed now key found).1.countP Instr.storing ≤ 1 := by
  cases how with
  | get | getEncoded | containsKey =>
    exact (countP_storing_getCode observed now key _ [] found).trans (Nat.zero_le 1)
  | getOrLoad => exact (countP_storing_getCode ..).trans (le_refl _)
  | getOrLoadWithRefresh =>
    cases found with
    | none => exact le_refl _
    | some =>
      simp only [Read.after, refreshCode]
      split_ifs <;> simp [Instr.storing]

/-! ### Effects of one instruction -/

section

variable (config : CacheConfig) (task : ℕ) (s s' : Shared) (next : List Instr)

/-- What an instruction of `task` does to the store and to the record of insertions. -/
inductive StoreEffect : Instr → Prop where
  | keeps instr : s'.store = s.store → s'.writes = s.writes → StoreEffect instr
  | removes key : s'.store = Function.update s.store key none → s'.writes = s.writes →
      StoreEffect (.invalidate key)
  | inserts key entry : s'.store = Function.update s.store key (some entry) →
      s'.writes = ⟨task, key, entry⟩ :: s.writes → StoreEffect (.insert key entry)
  | removesAll : s'.store = (fun _ ↦ none) → s'.writes = s.writes → StoreEffect .invalidateAll

/-- What an instruction does to the index, where it says so in the code that follows. -/
inductive IndexEffect : Instr → Prop where
  | keeps instr : s'.index = s.index → IndexEffect instr
  | registers key tags version : s'.index = s.index.register key tags version →
      IndexEffect (.register key tags version)
  | unregisters key tags : s'.index = s.index.unregister key tags →
      IndexEffect (.unregister key tags)
  | replaces key tags entry : s'.index = s.index.unregister key tags → next = [.insert key entry] →
      IndexEffect (.replaceUnregister key tags entry)
  | cleans ticket : s.observed = true →
      s'.index = s.index.unregisterIfVersion ticket.key ticket.tags ticket.version →
      IndexEffect (.cleanup ticket)
  | advances key : s'.index = s.index.advanceKey key → IndexEffect (.advanceKey key)
  | takes tag (keys : List Key) : s'.index = (s.index.takeTag tag).2 →
      keys.Perm (s.index.takeTag tag).1 → next = keys.map .removeLookup →
      IndexEffect (.takeTag tag)
  | clears : s'.index = s.index.clear → IndexEffect .clearIndex

/-- Which instructions an instruction can continue with, and under which condition. -/
inductive Continues : Instr → Instr → Prop where
  | lookup {key how next} : AfterLookup s.now key how (s.store key) next →
      Continues (.lookup key how) next
  | drainClaimed : Continues .drain .drainNext
  | drainCleanup {ticket} : ticket ∈ s.tickets → Continues .drainNext (.cleanup ticket)
  | drainAcknowledge ticket : Continues .drainNext (.acknowledge ticket)
  | drainAgain : Continues .drainNext .drainNext
  | refreshMiss {key options refresh stale fallback} : fallback = none ∨ fallback = some stale →
      Continues (.refreshMiss key options refresh stale) (.sharedLoad ⟨key, options, fallback⟩)
  | lead request : Continues (.sharedLoad request)
      (.loader request (s.index.snapshot request.key request.options.tags))
  | joinFailed {request next} : next ∈ failedLoad s.observed request →
      Continues (.sharedLoad request) next
  | loaded request value snapshot :
      Continues (.loader request snapshot) (.checkFresh request value snapshot)
  | loadFailed {request snapshot next} : next ∈ failedLoad s.observed request →
      Continues (.loader request snapshot) next
  | freshDrain request value snapshot : Continues (.checkFresh request value snapshot) .drain
  | freshPut {request value snapshot} : s.index.isCurrent snapshot = true →
      Continues (.checkFresh request value snapshot) (.put request value)
  | putFailed {request value next} : next ∈ failedLoad s.observed request →
      Continues (.put request value) next
  | putInsert request value :
      Continues (.put request value) (.insert request.key (s.newEntry config request value))
  | putReplace request value :
      Continues (.put request value) (.replaceLookup request.key (s.newEntry config request value))
  | replaceInsert key entry : Continues (.replaceLookup key entry) (.insert key entry)
  | replaceFound key tags entry :
      Continues (.replaceLookup key entry) (.replaceUnregister key tags entry)
  | replaced key tags entry : Continues (.replaceUnregister key tags entry) (.insert key entry)
  | inserted key entry : Continues (.insert key entry) (.register key entry.tags entry.version)
  | insertedDrain key entry : Continues (.insert key entry) .drain
  | taken tag key : Continues (.takeTag tag) (.removeLookup key)
  | removeFound {key entry next} : s.store key = some entry →
      next ∈ removeEntry s.observed key entry → Continues (.removeLookup key) next

/-- What the instructions of `task` do, one case for each way an instruction can go. -/
inductive Executes : Instr → Outcome → Prop where
  | idles instr : Executes instr { shared := s }
  | looksUp key how : Executes (.lookup key how)
      { shared := s
        next := (how.after config s.observed s.now key (s.store key)).1
        spawned := (how.after config s.observed s.now key (s.store key)).2 }
  | removes key : Executes (.invalidate key)
      { shared := { s with store := Function.update s.store key none } }
  | unregisters key tags : Executes (.unregister key tags)
      { shared := { s with index := s.index.unregister key tags } }
  | claims {observer claimed} : s.observer = some observer →
      observer.tryClaimDrain = some claimed → Executes .drain
        { shared := { s with observer := some claimed }, next := [.drainNext] }
  | releases {observer} : s.observer = some observer → observer.queue = [] →
      Executes .drainNext { shared := { s with observer := some observer.releaseDrain } }
  | dequeues {observer ticket queue} : s.observer = some observer →
      observer.queue = ticket :: queue → Executes .drainNext
        { shared := { s with observer := some { observer with queue } }
          next := [.cleanup ticket, .acknowledge ticket, .drainNext] }
  | cleans ticket {observer} : s.observer = some observer → Executes (.cleanup ticket)
      { shared := { s with
          index := s.index.unregisterIfVersion ticket.key ticket.tags ticket.version } }
  | acknowledges ticket : Executes (.acknowledge ticket)
      { shared := { s with
          observer := s.observer.map fun observer ↦ observer.acknowledgeOne.releaseSlot ticket } }
  | misses key options refresh stale {fallback} : fallback = none ∨ fallback = some stale →
      Executes (.refreshMiss key options refresh stale)
        { shared := s, next := [.sharedLoad ⟨key, options, fallback⟩] }
  | leads request : Executes (.sharedLoad request)
      { shared := s
        next := [.loader request (s.index.snapshot request.key request.options.tags)]
        snapshot := some (s.index.snapshot request.key request.options.tags) }
  | joinFails request : Executes (.sharedLoad request)
      { shared := s, next := failedLoad s.observed request }
  | loads request snapshot value : Executes (.loader request snapshot)
      { shared := s, next := [.checkFresh request value snapshot] }
  | loadFails request snapshot : Executes (.loader request snapshot)
      { shared := s, next := failedLoad s.observed request }
  | passes request value snapshot : s.index.isCurrent snapshot = true →
      Executes (.checkFresh request value snapshot)
        { shared := s, next := [.drain, .put request value] }
  | putFails request value : Executes (.put request value)
      { shared := s, next := failedLoad s.observed request }
  | puts request value : Executes (.put request value)
      { shared := { s with nextEntryVersion := s.nextEntryVersion + 1 }
        next := [if s.observed then .insert request.key (s.newEntry config request value)
          else .replaceLookup request.key (s.newEntry config request value)] }
  | replacesNone key entry : Executes (.replaceLookup key entry)
      { shared := s, next := [.insert key entry] }
  | replacesOld key tags entry : Executes (.replaceLookup key entry)
      { shared := s, next := [.replaceUnregister key tags entry] }
  | replaces key tags entry : Executes (.replaceUnregister key tags entry)
      { shared := { s with index := s.index.unregister key tags }, next := [.insert key entry] }
  | inserts key entry : Executes (.insert key entry)
      { shared := { s with
          store := Function.update s.store key (some entry)
          writes := ⟨task, key, entry⟩ :: s.writes }
        next := [.register key entry.tags entry.version, .drain] }
  | registers key tags version : Executes (.register key tags version)
      { shared := { s with index := s.index.register key tags version } }
  | advances key : Executes (.advanceKey key)
      { shared := { s with index := s.index.advanceKey key } }
  | takes tag {keys : List Key} : keys.Perm (s.index.takeTag tag).1 → Executes (.takeTag tag)
      { shared := { s with index := (s.index.takeTag tag).2 }, next := keys.map .removeLookup }
  | removesFound key {entry} : s.store key = some entry →
      Executes (.removeLookup key) { shared := s, next := removeEntry s.observed key entry }
  | removesAll : Executes .invalidateAll { shared := { s with store := fun _ ↦ none } }
  | clears : Executes .clearIndex { shared := { s with index := s.index.clear } }
  | resets {observer claimed} : s.observer = some observer →
      observer.tryClaimDrain = some claimed → Executes .resetObserver
        { shared := { s with observer := some claimed.resetAfterReconcile.releaseDrain } }

end

section StoreEffect

variable {task : ℕ} {s s' : Shared} {instr : Instr}

section

variable (h : StoreEffect task s s' instr)
include h

/-- An entry in the store after an instruction was there before, or is the one it inserted. -/
theorem StoreEffect.store_eq_some {entry : CacheEntry} (hentry : s'.store key = some entry) :
    s.store key = some entry ∨ instr = .insert key entry ∧ ⟨task, key, entry⟩ ∈ s'.writes := by
  cases h with
  | keeps _ hstore => exact .inl (hstore ▸ hentry)
  | removes _ hstore =>
    rw [hstore, Function.update_apply] at hentry
    split_ifs at hentry
    exact .inl hentry
  | inserts _ _ hstore hwrit =>
    rw [hstore, Function.update_apply] at hentry
    split_ifs at hentry with hname
    · cases hentry
      subst hname
      refine .inr ⟨rfl, ?_⟩
      rw [hwrit]
      exact mem_cons_self
    · exact .inl hentry
  | removesAll hstore => simp [hstore] at hentry

/-- An insertion recorded after an instruction was recorded before, or is the one it made. -/
theorem StoreEffect.mem_writes {write : Write} (hwrite : write ∈ s'.writes) :
    write ∈ s.writes ∨ write.writer = task ∧ instr = .insert write.key write.entry := by
  cases h with
  | keeps _ _ hwrit | removes _ _ hwrit | removesAll _ hwrit => exact .inl (hwrit ▸ hwrite)
  | inserts _ _ _ hwrit =>
    rw [hwrit] at hwrite
    rcases mem_cons.mp hwrite with rfl | hwrite
    · exact .inr ⟨rfl, rfl⟩
    · exact .inl hwrite

/-- What was recorded stays recorded. -/
theorem StoreEffect.writes_subset : s.writes ⊆ s'.writes := by
  cases h with
  | keeps _ _ hwrit | removes _ _ hwrit | removesAll _ hwrit => exact hwrit ▸ List.Subset.refl _
  | inserts _ _ _ hwrit =>
    rw [hwrit]
    exact subset_cons_self _ _

end

end StoreEffect

section Exec

variable {config : CacheConfig} {task : ℕ} {s : Shared} {instr : Instr} {outcome : Outcome}

section

variable (h : exec config task choice s instr = some outcome)
include h

/-- Everything an instruction can do: the lemmas below argue from these cases and not from the
definition of `exec`. -/
theorem executes_of_exec : Executes config task s instr outcome := by
  revert h
  fun_cases exec <;> rintro ⟨⟩
  -- a load that is joined idles or fails; every other case is a constructor of its own
  case case16 request ok =>
    cases ok with
    | false => exact .joinFails request
    | true => exact .idles _
  case case14 stale fallback =>
    refine .misses _ _ _ stale ?_
    unfold fallback
    split_ifs <;> simp
  all_goals first
    | exact .idles _
    | constructor <;> assumption

theorem exec_storeEffect : StoreEffect task s outcome.shared instr := by
  cases executes_of_exec h with
  | removes key => exact .removes key rfl rfl
  | inserts key entry => exact .inserts key entry rfl rfl
  | removesAll => exact .removesAll rfl rfl
  | _ => exact .keeps _ rfl rfl

theorem exec_indexEffect : IndexEffect s outcome.shared outcome.next instr := by
  cases executes_of_exec h with
  | registers key tags version => exact .registers key tags version rfl
  | unregisters key tags => exact .unregisters key tags rfl
  | replaces key tags entry => exact .replaces key tags entry rfl rfl
  | cleans ticket hobs => exact .cleans ticket (by simp [Shared.observed, hobs]) rfl
  | advances key => exact .advances key rfl
  | takes tag hperm => exact .takes tag _ rfl hperm rfl
  | clears => exact .clears rfl
  | _ => exact .keeps _ rfl

theorem exec_now : outcome.shared.now = s.now := by
  cases executes_of_exec h <;> rfl

/-- The observer is attached when the cache is built and stays. -/
theorem exec_observed : outcome.shared.observed = s.observed := by
  cases executes_of_exec h with
  | claims hobs | releases hobs | dequeues hobs | resets hobs =>
    simp only [Shared.observed, hobs, Option.isSome_some]
  | acknowledges => exact Option.isSome_map
  | _ => rfl

theorem exec_nextEntryVersion : s.nextEntryVersion ≤ outcome.shared.nextEntryVersion := by
  cases executes_of_exec h with
  | puts => exact Nat.le_succ _
  | _ => exact le_refl _

/-- An instruction leaves at most one body that may insert, and only in the place of its own. -/
theorem exec_countP_storing :
    outcome.next.countP Instr.storing ≤ if instr.storing then 1 else 0 := by
  cases executes_of_exec h with
  | looksUp => exact countP_storing_after ..
  | puts => cases s.observed <;> rfl
  | takes => simp [Instr.storing, countP_map, Function.comp_def]
  | _ => simp [Instr.storing]

theorem exec_continues {next : Instr} (hnext : next ∈ outcome.next) :
    Continues config s instr next := by
  cases executes_of_exec h with
  | looksUp => exact .lookup (mem_after hnext)
  | claims | leads | loads | replacesNone | replacesOld | replaces =>
    rw [mem_singleton.mp hnext]
    constructor
  | dequeues hobs hqueue =>
    simp only [mem_cons, not_mem_nil, or_false] at hnext
    rcases hnext with rfl | rfl | rfl
    · exact .drainCleanup (by simp [Shared.tickets, hobs, hqueue])
    · exact .drainAcknowledge _
    · exact .drainAgain
  | misses _ _ _ _ hfallback =>
    rw [mem_singleton.mp hnext]
    exact .refreshMiss hfallback
  | joinFails => exact .joinFailed hnext
  | loadFails => exact .loadFailed hnext
  | passes request value snapshot hcur =>
    simp only [mem_cons, not_mem_nil, or_false] at hnext
    rcases hnext with rfl | rfl
    · exact .freshDrain request value snapshot
    · exact .freshPut hcur
  | putFails => exact .putFailed hnext
  | puts request value =>
    rw [mem_singleton.mp hnext]
    split_ifs
    · exact .putInsert request value
    · exact .putReplace request value
  | inserts key entry =>
    simp only [mem_cons, not_mem_nil, or_false] at hnext
    rcases hnext with rfl | rfl
    · exact .inserted key entry
    · exact .insertedDrain key entry
  | takes tag =>
    obtain ⟨key, _, rfl⟩ := mem_map.mp hnext
    exact .taken tag key
  | removesFound _ hentry => exact .removeFound hentry hnext
  | _ => cases hnext

/-- A snapshot is taken by the instruction that leads a load, which continues with the loader. -/
theorem exec_snapshot {snapshot : LoadGenerationSnapshot}
    (hsnap : outcome.snapshot = some snapshot) :
    ∃ request, instr = .sharedLoad request ∧
      snapshot = s.index.snapshot request.key request.options.tags ∧
      outcome.next = [.loader request snapshot] ∧ outcome.shared = s := by
  cases executes_of_exec h with
  | leads request =>
    cases hsnap
    exact ⟨request, rfl, rfl, rfl, rfl⟩
  | _ => cases hsnap

/-- Only a read spawns, and what it spawns is a background refresh. -/
theorem exec_spawned {op : Op}
    (hop : outcome.spawned = some op) : ∃ key options, op = .backgroundRefresh key options := by
  cases executes_of_exec h with
  | looksUp key how =>
    cases how with
    | get | getEncoded | containsKey | getOrLoad => cases hop
    | getOrLoadWithRefresh _ options =>
      simp only [Read.after, refreshCode] at hop
      split at hop
      · cases hop
      · split_ifs at hop <;> simp only [Option.some.injEq] at hop <;>
          exact ⟨key, options, hop.symm⟩
  | _ => cases hop

/-- No instruction queues a ticket: tickets come from the store's reports only. -/
theorem mem_tickets_of_exec
    {ticket : CleanupTicket} (htick : ticket ∈ outcome.shared.tickets) : ticket ∈ s.tickets := by
  cases executes_of_exec h with
  | claims hobs hclaim =>
    simp only [RemovalObserver.tryClaimDrain] at hclaim
    split_ifs at hclaim
    cases hclaim
    simpa [Shared.tickets, hobs] using htick
  | releases _ hqueue => simp [Shared.tickets, RemovalObserver.releaseDrain, hqueue] at htick
  | dequeues hobs hqueue =>
    have hqueued : ticket ∈ _ := htick
    simpa [Shared.tickets, hobs, hqueue] using .inr hqueued
  | acknowledges => cases hobs : s.observer <;> simp_all [Shared.tickets]
  | resets =>
    simp [Shared.tickets, RemovalObserver.releaseDrain, RemovalObserver.resetAfterReconcile]
      at htick
  | _ => exact htick

end

end Exec

/-! ### Effects of one step -/

/-- A step of a task is an instruction of it, and the start of what that spawned. -/
theorem step_task_eq_some {s s' : State} {tid : ℕ} (hcode : (s.tasks tid).code = instr :: rest) :
    step config s (.step tid choice) = some s' ↔
      ∃ outcome, exec config tid choice s.shared instr = some outcome ∧
        (s.advance tid rest outcome).startSpawned outcome.spawned = s' := by
  simp only [step, hcode, Option.map_eq_some_iff]

/-- Assumes: an invariant kept by the start of an operation that `ok` admits, by each instruction
taken under `C`, and by each move of the environment. Every step under `C` keeps it. -/
theorem step_preserves {C : State → Label → Prop} {I : State → Prop}
    (ok : Op → Prop) (hok : ∀ s op, C s (.start op) → ok op)
    (hrefresh : ∀ key options, ok (.backgroundRefresh key options))
    (hstart : ∀ s op, ok op → I s → I (s.start op))
    (hadv : ∀ s tid choice instr rest outcome, C s (.step tid choice) → I s →
      (s.tasks tid).code = instr :: rest → exec config tid choice s.shared instr = some outcome →
      I (s.advance tid rest outcome))
    (helapse : ∀ s : State, ∀ time, I s →
      I { s with shared := { s.shared with now := s.shared.now + time } })
    (hevict : ∀ s : State, ∀ key, C s (.evict key) → I s →
      I { s with shared := { s.shared with store := Function.update s.shared.store key none } })
    (hobserve : ∀ s : State, ∀ write ∈ s.shared.writes,
      s.shared.store write.key ≠ some write.entry → I s →
      I { s with shared := { s.shared with
        observer := s.shared.observer.map fun observer ↦ observer.observe write.key write.entry } })
    (s : State) (label : Label) (s' : State) (hC : C s label) (hI : I s)
    (h : step config s label = some s') : I s' := by
  cases label with
  | start op =>
    cases h
    exact hstart s op (hok s op hC) hI
  | step tid choice =>
    cases hcode : (s.tasks tid).code with
    | nil =>
      simp only [step, hcode] at h
      cases h
    | cons instr rest =>
      obtain ⟨outcome, hexec, rfl⟩ := (step_task_eq_some hcode).mp h
      have hadvanced := hadv s tid choice instr rest outcome hC hI hcode hexec
      cases hspawn : outcome.spawned with
      | none => exact hadvanced
      | some =>
        obtain ⟨key, options, rfl⟩ := exec_spawned hexec hspawn
        exact hstart _ _ (hrefresh key options) hadvanced
  | elapse time =>
    cases h
    exact helapse s time hI
  | evict key =>
    simp only [step] at h
    split_ifs at h
    cases h
    exact hevict s key hC hI
  | observe =>
    simp only [step] at h
    split_ifs at h with hobs
    cases h
    obtain ⟨⟨write, hwrite, rfl, rfl⟩, habsent⟩ := hobs
    exact hobserve s write hwrite habsent hI

namespace State

/-- Some task still has the instruction ahead of it. -/
def Ahead (s : State) (instr : Instr) : Prop := ∃ tid, instr ∈ (s.tasks tid).code

theorem tasks_start (s : State) (op : Op) (tid : ℕ) :
    (s.start op).tasks tid = if tid = s.spawned then
      { op := some op, code := op.code s.shared.observed, startedAt := s.clock }
    else s.tasks tid := by
  simp only [start, Function.update_apply]

theorem tasks_advance_self (s : State) (tid : ℕ) (rest : List Instr) (outcome : Outcome) :
    (s.advance tid rest outcome).tasks tid = { s.tasks tid with
      code := outcome.next ++ rest
      snapshot := (outcome.snapshot.map fun snapshot ↦ (snapshot, s.clock)).or
        (s.tasks tid).snapshot } := by
  simp [advance]

theorem tasks_advance_of_ne (s : State) {tid other : ℕ} (h : other ≠ tid) (rest : List Instr)
    (outcome : Outcome) : (s.advance tid rest outcome).tasks other = s.tasks other := by
  simp [advance, h]

section Code

variable {s : State} {tid other : ℕ} {instr next : Instr} {outcome : Outcome}
  (hcode : (s.tasks tid).code = instr :: rest)
include hcode

theorem mem_code_of_eq_cons : instr ∈ (s.tasks tid).code := by
  rw [hcode]
  exact mem_cons_self

/-- What is ahead after an instruction was ahead before it, or is what it continues with. -/
theorem mem_code_advance (h : next ∈ ((s.advance tid rest outcome).tasks other).code) :
    next ∈ (s.tasks other).code ∨ other = tid ∧ next ∈ outcome.next := by
  by_cases hother : other = tid
  · subst hother
    rw [tasks_advance_self] at h
    rcases mem_append.mp h with h | h
    · exact .inr ⟨rfl, h⟩
    · left
      rw [hcode]
      exact mem_cons_of_mem _ h
  · rw [tasks_advance_of_ne s hother] at h
    exact .inl h

/-- An instruction other than the one that runs stays ahead, in the same task. -/
theorem mem_code_advance_of_ne (hne : next ≠ instr) (h : next ∈ (s.tasks other).code) :
    next ∈ ((s.advance tid rest outcome).tasks other).code := by
  by_cases hother : other = tid
  · subst hother
    rw [tasks_advance_self]
    rw [hcode] at h
    exact mem_append_right _ ((mem_cons.mp h).resolve_left hne)
  · rwa [tasks_advance_of_ne s hother]

end Code

/-- Task `tid` has still to look up and remove, or just to remove, what is stored under `key`. -/
def Removes (s : State) (tid : ℕ) (key : Key) : Prop :=
  .removeLookup key ∈ (s.tasks tid).code ∨ .invalidate key ∈ (s.tasks tid).code

/-- A removal stays ahead until the store does not hold the key. -/
theorem Removes.advance {config : CacheConfig} {s : State} {tid other : ℕ} {instr : Instr}
    {outcome : Outcome} (h : s.Removes other key) (hcode : (s.tasks tid).code = instr :: rest)
    (hexec : exec config tid choice s.shared instr = some outcome)
    (hafter : outcome.shared.store key ≠ none) :
    (s.advance tid rest outcome).Removes other key := by
  by_cases hself : other = tid
  · subst hself
    unfold Removes at h ⊢
    rw [hcode] at h
    rw [tasks_advance_self]
    simp only [mem_append]
    rcases h with h | h
    · rcases mem_cons.mp h with rfl | h
      · simp only [exec] at hexec
        split at hexec <;> cases hexec
        · exact (hafter (by assumption)).elim
        · exact .inr (.inl mem_cons_self)
      · exact .inl (.inr h)
    · rcases mem_cons.mp h with rfl | h
      · cases hexec
        simp at hafter
      · exact .inr (.inr h)
  · unfold Removes
    rwa [tasks_advance_of_ne s hself]

end State

end HydraCache.Local
