import HydraCache.Lib.Run
import HydraCache.Local.RemovalObserver

/-!
# The local cache as a machine of interleaved operations

Every public operation of the local cache is an asynchronous function that gives way at each of its
await points. Here an operation in flight is a task, and what is left of its body is its code: a
list of atomic instructions, one for each await on the store, on the tag index or on the removal
observer together with the plain code up to the next one. A step of a task runs its first
instruction (`exec`), which acts on the shared state and puts what follows from it in front of the
rest of the code. A run interleaves the steps of any number of tasks with what the environment does
(`Label`): new calls, the passing of time, capacity evictions, and the store's removal reports, late
and possibly repeated.

Single flight appears as a choice: a call that reaches `sharedLoad` leads a load of its own, or
joins one whose result it is told. The codec is a predicate on encoded values, one per read, since
each read decodes at its own type.

Scope. Statistics, events, the memory counters and the invalidation bus do not act on the store or
the index and are left out. So are calls dropped before they return.

Three fields record the past and are read by no instruction: the insertions made so far
(`Shared.writes`), and for each task when it started and when it took its generation snapshot.
-/

set_option autoImplicit false

namespace HydraCache.Local

open Lib

/-! ### Operations and their instructions -/

/-- An expired entry a load may fall back to when it fails, with the decoder of its caller. -/
structure Fallback where
  entry : CacheEntry
  decodes : Bytes → Bool

/-- What a put or a load stores its value under, and what a failed load falls back to. -/
structure Request where
  key : Key
  options : CacheOptions
  fallback : Option Fallback := none

/-- The ways to read one key. -/
inductive Read where
  | get (decodes : Bytes → Bool)
  | getEncoded
  | containsKey
  | getOrLoad (decodes : Bytes → Bool) (options : CacheOptions)
  | getOrLoadWithRefresh (decodes : Bytes → Bool) (options : CacheOptions)
      (refresh : RefreshOptions)

/-- The operations a task can run. -/
inductive Op where
  | read (key : Key) (how : Read)
  | put (key : Key) (value : Bytes) (options : CacheOptions)
  | invalidateKey (key : Key)
  | invalidateTag (tag : Tag)
  | flush
  | backgroundRefresh (key : Key) (options : CacheOptions)

/-- The atomic instructions. -/
inductive Instr where
  -- the store lookup every read begins with
  | lookup (key : Key) (how : Read)
  -- `remove_entry`: by key, then the index
  | invalidate (key : Key)
  | unregister (key : Key) (tags : List Tag)
  -- `RemovalObserver::drain`, ticket by ticket
  | drain
  | drainNext
  | cleanup (ticket : CleanupTicket)
  | acknowledge (ticket : CleanupTicket)
  -- a load, from the choice of its fallback to its freshness check
  | refreshMiss (key : Key) (options : CacheOptions) (refresh : RefreshOptions) (stale : Fallback)
  | sharedLoad (request : Request)
  | loader (request : Request) (snapshot : LoadGenerationSnapshot)
  | checkFresh (request : Request) (value : Bytes) (snapshot : LoadGenerationSnapshot)
  -- `put_bytes_unchecked`
  | put (request : Request) (value : Bytes)
  | replaceLookup (key : Key) (entry : CacheEntry)
  | replaceUnregister (key : Key) (oldTags : List Tag) (entry : CacheEntry)
  | insert (key : Key) (entry : CacheEntry)
  | register (key : Key) (tags : List Tag) (version : ℕ)
  -- invalidations and `flush`
  | advanceKey (key : Key)
  | takeTag (tag : Tag)
  | removeLookup (key : Key)
  | invalidateAll
  | runPendingTasks
  | clearIndex
  | resetObserver

/-- The code of a call. -/
def Op.code (observed : Bool) : Op → List Instr
  | read key how => [.lookup key how]
  | put key value options => [.drain, .put ⟨key, options, none⟩ value]
  | invalidateKey key => [.advanceKey key, .removeLookup key]
  | invalidateTag tag => [.drain, .takeTag tag]
  | flush =>
    [.invalidateAll, .runPendingTasks, .drain, .clearIndex] ++
      if observed then [.resetObserver] else []
  | backgroundRefresh key options => [.sharedLoad ⟨key, options, none⟩]

/-- `remove_entry`. The store forgets the key whatever it holds by then; without an observer the
entry that was looked up is also dropped from the index. -/
def removeEntry (observed : Bool) (key : Key) (entry : CacheEntry) : List Instr :=
  [.invalidate key, if observed then .drain else .unregister key entry.tags]

/-- What `get` does with what it found; a miss continues with `onMiss`. -/
def getCode (observed : Bool) (now : Instant) (key : Key) (decodes : Bytes → Bool)
    (onMiss : List Instr) : Option CacheEntry → List Instr
  | none => onMiss
  | some entry =>
    if entry.isExpired now then removeEntry observed key entry ++ onMiss
    else if decodes entry.value then []
    else removeEntry observed key entry

section

variable (config : CacheConfig)

/-- What `get_or_load_with_refresh` does with what it found, and the refresh it spawns, if any. -/
def refreshCode (observed : Bool) (now : Instant) (key : Key)
    (decodes : Bytes → Bool) (options : CacheOptions) (refresh : RefreshOptions) :
    Option CacheEntry → List Instr × Option Op
  | none => ([.sharedLoad ⟨key, options, none⟩], none)
  | some entry =>
    let remove := removeEntry observed key entry
    let miss := [.refreshMiss key options refresh ⟨entry, decodes⟩]
    if !entry.isExpired now then
      if decodes entry.value then
        ([], if (refresh.refreshAhead.map fun threshold ↦
            entry.refreshAheadDue threshold now).getD false then
          some (.backgroundRefresh key options) else none)
      else (remove, none)
    else if entryInStaleWindow config entry refresh.staleWhileRevalidate now then
      if decodes entry.value then ([], some (.backgroundRefresh key options))
      else (remove ++ remove ++ miss, none)
    else (remove ++ miss, none)

/-- The decoder of a read; reads that hand out bytes or none at all decode everything. -/
def Read.decodes : Read → Bytes → Bool
  | get decodes | getOrLoad decodes _ | getOrLoadWithRefresh decodes _ _ => decodes
  | getEncoded | containsKey => fun _ ↦ true

/-- What a read does with what it found, and the refresh it spawns, if any. -/
def Read.after (observed : Bool) (now : Instant) (key : Key)
    (found : Option CacheEntry) (how : Read) : List Instr × Option Op :=
  match how with
  | get _ | getEncoded | containsKey => (getCode observed now key how.decodes [] found, none)
  | getOrLoad _ options =>
    (getCode observed now key how.decodes [.sharedLoad ⟨key, options, none⟩] found, none)
  | getOrLoadWithRefresh _ options refresh =>
    refreshCode config observed now key how.decodes options refresh found

/-- What a failed load does: an entry to fall back to that does not decode is removed, once by the
decoding and once more by its caller. -/
def failedLoad (observed : Bool) (request : Request) : List Instr :=
  match request.fallback with
  | none => []
  | some fallback =>
    if fallback.decodes fallback.entry.value then []
    else removeEntry observed request.key fallback.entry ++
      removeEntry observed request.key fallback.entry

/-! ### Shared state and instructions -/

/-- An insertion into the store, and the task that made it. -/
structure Write where
  writer : ℕ
  key : Key
  entry : CacheEntry
deriving DecidableEq

structure Shared where
  store : Key → Option CacheEntry := fun _ ↦ none
  nextEntryVersion : ℕ := 1
  index : TagIndex := {}
  observer : Option RemovalObserver
  now : Instant := 0
  writes : List Write := []

/-- The cache was built with a removal observer. -/
def Shared.observed (s : Shared) : Bool := s.observer.isSome

/-- The entry a put builds for its value, with the version it allocates. -/
def Shared.newEntry (s : Shared) (request : Request) (value : Bytes) : CacheEntry where
  value := value
  tags := request.options.tags
  expiresAt := deadlineAfter config request.options s.now
  version := s.nextEntryVersion

/-- What the code does not determine: whether a call leads or joins a load, what a loader returns,
and the order in which a hash map yields its keys. -/
inductive Choice where
  | proceed
  | joined (ok : Bool)
  | loaded (result : Option Bytes)
  | order (keys : List Key)

/-- The effect of one instruction: the shared state, the code it continues with, the generation
snapshot it took and the operation it spawned. -/
structure Outcome where
  shared : Shared
  next : List Instr := []
  snapshot : Option LoadGenerationSnapshot := none
  spawned : Option Op := none

/-- Run one instruction of a task. `none` is an instruction that has to wait, or a choice that does
not belong to it. -/
def exec (task : ℕ) (choice : Choice) (s : Shared) : Instr → Option Outcome
  | .lookup key how =>
    let after := how.after config s.observed s.now key (s.store key)
    some { shared := s, next := after.1, spawned := after.2 }
  | .invalidate key => some { shared := { s with store := Function.update s.store key none } }
  | .unregister key tags => some { shared := { s with index := s.index.unregister key tags } }
  | .drain =>
    match s.observer with
    | none => some { shared := s }
    | some observer =>
      if observer.accepted = observer.acknowledged then some { shared := s }
      else
        match observer.tryClaimDrain with
        | none => some { shared := s }
        | some claimed =>
          some { shared := { s with observer := some claimed }, next := [.drainNext] }
  | .drainNext =>
    match s.observer with
    | none => some { shared := s }
    | some observer =>
      match observer.queue with
      | [] => some { shared := { s with observer := some observer.releaseDrain } }
      | ticket :: queue =>
        some
          { shared := { s with observer := some { observer with queue } }
            next := [.cleanup ticket, .acknowledge ticket, .drainNext] }
  | .cleanup ticket =>
    match s.observer with
    | none => some { shared := s }
    | some _ =>
      some
        { shared := { s with
            index := s.index.unregisterIfVersion ticket.key ticket.tags ticket.version } }
  | .acknowledge ticket =>
    some
      { shared := { s with
          observer := s.observer.map fun observer ↦ observer.acknowledgeOne.releaseSlot ticket } }
  | .refreshMiss key options refresh stale =>
    let fallback :=
      if refresh.serveStaleOnLoaderError &&
          entryInStaleWindow config stale.entry refresh.staleOnLoaderErrorWindow s.now then
        some stale
      else none
    some { shared := s, next := [.sharedLoad ⟨key, options, fallback⟩] }
  | .sharedLoad request =>
    match choice with
    | .proceed =>
      let snapshot := s.index.snapshot request.key request.options.tags
      some { shared := s, next := [.loader request snapshot], snapshot := some snapshot }
    | .joined ok => some { shared := s, next := if ok then [] else failedLoad s.observed request }
    | _ => none
  | .loader request snapshot =>
    match choice with
    | .loaded (some value) => some { shared := s, next := [.checkFresh request value snapshot] }
    | .loaded none => some { shared := s, next := failedLoad s.observed request }
    | _ => none
  | .checkFresh request value snapshot =>
    if exceedsMaxEntryBytes config value then some { shared := s }
    else if s.index.isCurrent snapshot then
      some { shared := s, next := [.drain, .put request value] }
    else some { shared := s }
  | .put request value =>
    if exceedsMaxEntryBytes config value ∨ s.nextEntryVersion = maxWord then
      some { shared := s, next := failedLoad s.observed request }
    else
      let entry := s.newEntry config request value
      some
        { shared := { s with nextEntryVersion := s.nextEntryVersion + 1 }
          next := [if s.observed then .insert request.key entry
            else .replaceLookup request.key entry] }
  | .replaceLookup key entry =>
    match s.store key with
    | none => some { shared := s, next := [.insert key entry] }
    | some old => some { shared := s, next := [.replaceUnregister key old.tags entry] }
  | .replaceUnregister key oldTags entry =>
    some
      { shared := { s with index := s.index.unregister key oldTags }
        next := [.insert key entry] }
  | .insert key entry =>
    some
      { shared := { s with
          store := Function.update s.store key (some entry)
          writes := ⟨task, key, entry⟩ :: s.writes }
        next := [.register key entry.tags entry.version, .drain] }
  | .register key tags version =>
    some { shared := { s with index := s.index.register key tags version } }
  | .advanceKey key => some { shared := { s with index := s.index.advanceKey key } }
  | .takeTag tag =>
    match choice with
    | .order keys =>
      if keys.Perm (s.index.takeTag tag).1 then
        some
          { shared := { s with index := (s.index.takeTag tag).2 }
            next := keys.map .removeLookup }
      else none
    | _ => none
  | .removeLookup key =>
    match s.store key with
    | none => some { shared := s }
    | some entry => some { shared := s, next := removeEntry s.observed key entry }
  | .invalidateAll => some { shared := { s with store := fun _ ↦ none } }
  | .runPendingTasks => some { shared := s }
  | .clearIndex => some { shared := { s with index := s.index.clear } }
  | .resetObserver =>
    match s.observer with
    | none => some { shared := s }
    | some observer =>
      match observer.tryClaimDrain with
      | none => none
      | some claimed =>
        some { shared := { s with observer := some claimed.resetAfterReconcile.releaseDrain } }

end

/-! ### Tasks and runs -/

/-- A call: what is left of its code, when it started and the snapshot it took, with its time. -/
structure Task where
  op : Option Op := none
  code : List Instr := []
  startedAt : ℕ := 0
  snapshot : Option (LoadGenerationSnapshot × ℕ) := none

/-- The shared state and all tasks; tasks from `spawned` on have not started. -/
structure State where
  shared : Shared
  tasks : ℕ → Task := fun _ ↦ {}
  spawned : ℕ := 0
  clock : ℕ := 0

namespace State

/-- A fresh cache, with or without a removal observer. -/
def initial (observed : Bool) : State where
  shared := { observer := if observed then some {} else none }

/-- A new task begins to run `op`. -/
def start (s : State) (op : Op) : State :=
  { s with
    tasks := Function.update s.tasks s.spawned
      { op := some op, code := op.code s.shared.observed, startedAt := s.clock }
    spawned := s.spawned + 1
    clock := s.clock + 1 }

/-- Task `tid` has run its first instruction, with the given outcome, and `rest` is left. -/
def advance (s : State) (tid : ℕ) (rest : List Instr) (outcome : Outcome) : State :=
  let task := s.tasks tid
  { s with
    shared := outcome.shared
    tasks := Function.update s.tasks tid
      { task with
        code := outcome.next ++ rest
        snapshot := (outcome.snapshot.map fun snapshot ↦ (snapshot, s.clock)).or task.snapshot }
    clock := s.clock + 1 }

/-- Start what an instruction spawned. -/
def startSpawned (s : State) : Option Op → State
  | none => s
  | some op => s.start op

end State

/-- What happens next: a call, a step of a task, or a move of the environment. -/
inductive Label where
  | start (op : Op)
  | step (tid : ℕ) (choice : Choice)
  | elapse (time : Instant)
  | evict (key : Key)
  | observe (key : Key) (entry : CacheEntry)

/-- One step of the machine. The store evicts only what it holds, and it reports only entries it
held and no longer holds. -/
def step (config : CacheConfig) (s : State) : Label → Option State
  | .start op => some (s.start op)
  | .step tid choice =>
    match (s.tasks tid).code with
    | [] => none
    | instr :: rest =>
      (exec config tid choice s.shared instr).map fun outcome ↦
        (s.advance tid rest outcome).startSpawned outcome.spawned
  | .elapse time => some { s with shared := { s.shared with now := s.shared.now + time } }
  | .evict key =>
    if (s.shared.store key).isSome then
      some { s with shared := { s.shared with store := Function.update s.shared.store key none } }
    else none
  | .observe key entry =>
    if (∃ write ∈ s.shared.writes, write.key = key ∧ write.entry = entry) ∧
        s.shared.store key ≠ some entry then
      some { s with shared := { s.shared with
        observer := s.shared.observer.map fun observer ↦ observer.observe key entry } }
    else none

/-- A configuration for runs that are followed step by step. -/
def sampleConfig : CacheConfig where
  defaultTtl := 10
  maxEntryBytes := 1024
  maxInstant := 1000000

end HydraCache.Local
