import HydraCache.Client.Isolation
import HydraCache.Client.LockService

/-!
# The client surface

The client surface answers the requests of verified clients from one ordered map of values, keyed by
tenant, namespace and key. A value may have a deadline. An entry whose deadline has passed stays in
the map until something removes it: a request that looks at its key, or a sweep. A sweep runs before
a request when the last one is long enough ago, or on its own; it looks at a bounded number of
entries from where the last one stopped, or at all of them when it is forced. With tenant isolation
every write is admitted against the quota of its namespace, and whatever leaves the map is released
from the ledger.

`dispatchVerifiedRequest` is one request, and `apply` one event of the surface: a request with the
two clock readings it makes, or a sweep. The clock of the surface never runs backwards, whatever the
system clock says.

Requests that look at one entry have the same shape (`withLiveEntry`), and differ in what they
answer and do to the entry (`EntryAction`).

Scope. Requests are handled one at a time, as the locks of the surface make them. The route of the
HTTP server checks the identity and the tenant in the same way before it dispatches. Counters,
published mutation events and diagnostic snapshots are left out; the audit sink is the number of its
events.
-/

set_option autoImplicit false

namespace HydraCache.Client

open Lib Grid

/-! ### Identities -/

structure ClientIdentity where
  clientId : String
  tenant : TenantId
  admin : Bool := false
deriving DecidableEq

namespace ClientIdentity

/-- The key of an entry in the store and in the ledger. -/
def storeKey (identity : ClientIdentity) (ns key : String) : EntryKey := ⟨identity.tenant, ns, key⟩

def lockKey (identity : ClientIdentity) (ns key : String) : Key :=
  s!"{identity.tenant.utf8ByteSize}:{identity.tenant}|{ns.utf8ByteSize}:{ns}|" ++
    s!"{key.utf8ByteSize}:{key}"

def lockOwner (identity : ClientIdentity) : LockOwner :=
  ⟨s!"{identity.tenant}:{identity.clientId}", 0⟩

end ClientIdentity

/-! ### Entries -/

structure StoredValue where
  value : SealedBytes
  expiresAtMs : Option ℕ
deriving DecidableEq

namespace StoredValue

def persistent (value : SealedBytes) : StoredValue where
  value
  expiresAtMs := none

def withTtl (value : SealedBytes) (nowMs ttlMs : ℕ) : StoredValue where
  value
  expiresAtMs := some (saturatingAdd nowMs ttlMs)

/-- A value with the time to live that a request gives it. -/
def stored (value : SealedBytes) (nowMs : ℕ) : Option ℕ → StoredValue
  | some ttlMs => withTtl value nowMs ttlMs
  | none => persistent value

def isExpired (entry : StoredValue) (nowMs : ℕ) : Bool := entry.expiresAtMs.any (· ≤ nowMs)

def ttlState (entry : StoredValue) (nowMs : ℕ) : TtlState :=
  match entry.expiresAtMs with
  | some expiresAtMs => if expiresAtMs ≤ nowMs then .missing else .expiresIn (expiresAtMs - nowMs)
  | none => .persistent

end StoredValue

abbrev Store := OrderedMap EntryKey StoredValue

/-- The live entry under a key, whether an expired one was removed, and the store after that. -/
def liveEntry (store : Store) (key : EntryKey) (nowMs : ℕ) : Option StoredValue × Bool × Store :=
  if (store.get key).any (·.isExpired nowMs) then (none, true, store.remove key)
  else (store.get key, false, store)

/-- The expired keys among those a sweep examines, and the last key examined. -/
def expirySweepCandidates (store : Store) (nowMs : ℕ) (cursor : Option EntryKey) (scanLimit : ℕ)
    (captureCursor : Bool) : List EntryKey × Option EntryKey :=
  let examined : List (EntryKey × StoredValue) :=
    match cursor with
    | some cursor =>
      let after := (store.rows.filter (cursor < ·.1)).take scanLimit
      after ++ (store.rows.filter (·.1 ≤ cursor)).take (scanLimit - after.length)
    | none => store.rows.take scanLimit
  ((examined.filter (·.2.isExpired nowMs)).map Prod.fst,
    if captureCursor then examined.getLast?.map Prod.fst else none)

/-! ### What a request does to one entry -/

inductive EntryChange where
  | keep
  | update (entry : StoredValue)
  | remove
deriving DecidableEq

/-- The answer of a request to what is live under a key, and what it does to it. -/
abbrev EntryAction (α : Type) :=
  Option StoredValue → ClientLockService → α × EntryChange × ClientLockService

def readValue : EntryAction (Option SealedBytes) := fun entry locks ↦
  (entry.map fun entry ↦ entry.value, .keep, locks)

def readTtl (nowMs : ℕ) : EntryAction TtlState := fun entry locks ↦
  (entry.elim .missing fun entry ↦ entry.ttlState nowMs, .keep, locks)

def setExpiry (nowMs ttlMs : ℕ) : EntryAction Bool := fun entry locks ↦
  match entry with
  | none => (false, .keep, locks)
  | some entry =>
    (true, .update { entry with expiresAtMs := some (saturatingAdd nowMs ttlMs) }, locks)

def clearExpiry : EntryAction Bool := fun entry locks ↦
  match entry with
  | none => (false, .keep, locks)
  | some entry => (entry.expiresAtMs.isSome, .update { entry with expiresAtMs := none }, locks)

def removeIfEqual (expectedValue : SealedBytes) : EntryAction Bool := fun entry locks ↦
  if entry.any fun entry ↦ decide (entry.value = expectedValue) then (true, .remove, locks)
  else (false, .keep, locks)

/-- The new deadline of an entry, if the mode gives it one. -/
def CompareValueExpireMode.deadline (nowMs ttlMs : ℕ) (expiresAtMs : Option ℕ) :
    CompareValueExpireMode → Option ℕ
  | .replace => some (saturatingAdd nowMs ttlMs)
  | .replaceIfExpiring => expiresAtMs.map fun _ ↦ saturatingAdd nowMs ttlMs
  | .addToRemaining => expiresAtMs.map fun expiresAtMs ↦ saturatingAdd expiresAtMs ttlMs

def expireIfEqual (expectedValue : SealedBytes) (nowMs ttlMs : ℕ) (mode : CompareValueExpireMode) :
    EntryAction Bool := fun entry locks ↦
  match entry with
  | none => (false, .keep, locks)
  | some entry =>
    if entry.value = expectedValue then
      match mode.deadline nowMs ttlMs entry.expiresAtMs with
      | none => (false, .keep, locks)
      | some deadline => (true, .update { entry with expiresAtMs := some deadline }, locks)
    else (false, .keep, locks)

abbrev Reply := Except ClientErrorEnvelope ClientResponse

def isCasApplied : Reply → Bool
  | .ok (.casApplied _) => true
  | _ => false

/-- Remove the entry if the conditional store finds the value expected. -/
def removeIfValueAction (lockKey : Key) (expected : SealedBytes) (level : ConsistencyLevel) :
    EntryAction Reply := fun entry locks ↦
  let (result, locks) :=
    locks.applyRemoveIfValue lockKey (entry.map fun entry ↦ entry.value) expected level
  (result, if isCasApplied result then .remove else .keep, locks)

def ConditionalPutCondition.holds (entry : Option StoredValue) : ConditionalPutCondition → Bool
  | .ifAbsent => entry.isNone
  | .ifPresentValue expected => entry.any fun entry ↦ decide (entry.value = expected)

/-- The bytes of the value a condition expects. -/
def ConditionalPutCondition.expectedBytes : ConditionalPutCondition → Option ℕ
  | .ifAbsent => none
  | .ifPresentValue expected => some expected.length

/-! ### Errors -/

def admissionError : AdmissionRejection → ClientErrorEnvelope
  | .rejectQuota tenant ns retryAfter =>
    (ClientErrorEnvelope.new .tenantQuota true
      s!"tenant {tenant} namespace {ns} quota exceeded").withRetryAfterMs retryAfter
  | .rejectRate tenant retryAfter =>
    (ClientErrorEnvelope.new .rateLimited true
      s!"tenant {tenant} rate limited").withRetryAfterMs retryAfter
  | .unknownTenant | .unknownNamespace .. =>
    .new .unauthorized false "tenant is not authorized for this namespace"
  | .globalLimit reason => .new .tooLarge false s!"request exceeds {reason}"

def deadlineError : ClientErrorEnvelope :=
  (ClientErrorEnvelope.new .deadlineExceeded true "request deadline expired").withRetryAfterMs 1

def tenantError : ClientErrorEnvelope :=
  .new .unauthorized false "client identity is not authorized for this tenant"

def adminError : ClientErrorEnvelope :=
  .new .unauthorized false "force_unlock requires admin privileges"

def auditError : ClientErrorEnvelope :=
  .new .backendUnavailable false
    "mandatory audit unavailable: in-memory audit sink capacity exhausted"

/-! ### The state -/

structure ClientSurfaceLimits where
  maxValueBytes : ℕ := 16 * 1024 * 1024
  maxBatchEntries : ℕ := 128
  maxBatchBytes : ℕ := 8 * 1024 * 1024
deriving DecidableEq

/-- When the outcome of each idempotent put is forgotten. -/
abbrev IdempotencyTable := KeyMap (TenantId × String) ℕ

def idempotencyCapacity : ℕ := 4096

def idempotencyTtlMs : ℕ := 24 * 60 * 60 * 1000

def expirySweepIntervalMs : ℕ := 1000

def expirySweepScanLimit : ℕ := 256

def auditCapacity : ℕ := 4096

/-- The reply that the table of outcomes already gives to a put, if any, and the table without the
outcomes that are too old. -/
def checkIdempotency (keys : IdempotencyTable) (nowMs : ℕ) (scopedKey : TenantId × String) :
    Option Reply × IdempotencyTable :=
  let keys := KeyMap.retain (fun _ expiresAtMs ↦ decide (nowMs < expiresAtMs)) keys
  if scopedKey ∈ keys then (some (.ok .stored), keys)
  else if idempotencyCapacity ≤ KeyMap.size keys then
    let retryAfterMs := (keys.entries.map fun entry ↦ max (entry.2 - nowMs) 1).min?.getD 1
    (some (.error ((ClientErrorEnvelope.new .rateLimited true
      "idempotency outcome capacity exhausted").withRetryAfterMs retryAfterMs)), keys)
  else (none, keys)

structure ClientSurfaceState where
  limits : ClientSurfaceLimits
  store : Store := ∅
  cacheTimeFloorMs : ℕ := 0
  nextExpirySweepMs : ℕ := 0
  expirySweepCursor : Option EntryKey := none
  idempotencyKeys : IdempotencyTable := ∅
  lockService : ClientLockService := {}
  auditEvents : ℕ := 0
  isolation : Option ConsumerIsolation

namespace ClientSurfaceState

/-- An empty surface, with tenant isolation or without. -/
def new (limits : ClientSurfaceLimits) (isolation : Option ConsumerIsolation) :
    ClientSurfaceState where
  limits
  isolation

section

variable (s : ClientSurfaceState)

/-- The clock: the system clock, and never less than before. -/
def nowMs (systemMs : ℕ) : ℕ × ClientSurfaceState :=
  (max systemMs s.cacheTimeFloorMs, { s with cacheTimeFloorMs := max systemMs s.cacheTimeFloorMs })

def recordAudit : Except ClientErrorEnvelope Unit × ClientSurfaceState :=
  if auditCapacity ≤ s.auditEvents then (.error auditError, s)
  else (.ok (), { s with auditEvents := s.auditEvents + 1 })

/-- Take an entry out of the ledger, if there is one. -/
def releaseEntry (identity : ClientIdentity) (ns key : String) : ClientSurfaceState :=
  { s with
    isolation := s.isolation.map fun isolation ↦
      (isolation.removeEntry identity.clientId ns key).2 }

/-! ### Sweeps -/

/-- Remove an expired entry from the store and from the ledger. -/
def dropExpired (key : EntryKey) : ClientSurfaceState :=
  { s with
    store := s.store.remove key
    isolation := s.isolation.map fun isolation ↦ (isolation.removeEntryForTenant key).2 }

def sweepExpiredEntries (nowMs : ℕ) (force : Bool) : ClientSurfaceState :=
  if !force && decide (nowMs < s.nextExpirySweepMs) then s
  else
    let (expired, nextCursor) := expirySweepCandidates s.store nowMs
      (if force then none else s.expirySweepCursor) (if force then maxWord
        else expirySweepScanLimit)
      (!force)
    let swept := expired.foldl dropExpired s
    { swept with
      nextExpirySweepMs := saturatingAdd nowMs expirySweepIntervalMs
      expirySweepCursor := nextCursor }

/-! ### Requests about one entry -/

def withAdmittedStore {α : Type} (s : ClientSurfaceState) (identity : ClientIdentity)
    (act : ClientSurfaceState → α × ClientSurfaceState) :
    Except ClientErrorEnvelope α × ClientSurfaceState :=
  match s.isolation with
  | none =>
    let (answer, s) := act s
    (.ok answer, s)
  | some isolation =>
    match isolation.admitRequest identity.clientId with
    | (.error error, isolation) =>
      (.error (admissionError error), { s with isolation := some isolation })
    | (.ok _, isolation) =>
      let (answer, s) := act { s with isolation := some isolation }
      (.ok answer, s)

section

variable {α : Type} (identity : ClientIdentity)

section

variable (ns : String)

/-- Look at the live entry under a key, act on it, and release from the ledger what left the
store. -/
def onLiveEntry (key : String) (nowMs : ℕ)
    (action : EntryAction α) (s : ClientSurfaceState) : α × ClientSurfaceState :=
  let storeKey := identity.storeKey ns key
  let (entry, expired, store) := liveEntry s.store storeKey nowMs
  let (answer, change, lockService) := action entry s.lockService
  let store := match change with
    | .keep => store
    | .update entry => store.insert storeKey entry
    | .remove => store.remove storeKey
  let s := { s with store, lockService }
  (answer, if expired || decide (change = .remove) then s.releaseEntry identity ns key else s)

def withLiveEntry (s : ClientSurfaceState) (identity : ClientIdentity) (ns key : String)
    (nowMs : ℕ) (action : EntryAction α) : Except ClientErrorEnvelope α × ClientSurfaceState :=
  s.withAdmittedStore identity (onLiveEntry identity ns key nowMs action)

section

variable (key : String)

def handleGet (clock : ℕ) : Reply × ClientSurfaceState :=
  let (nowMs, s) := s.nowMs clock
  let (value, s) := s.withLiveEntry identity ns key nowMs readValue
  (value.map .value, s)

def handleExpire (ttlMs : ℕ) (clock : ℕ) : Reply × ClientSurfaceState :=
  let (nowMs, s) := s.nowMs clock
  let (applied, s) := s.withLiveEntry identity ns key nowMs (setExpiry nowMs ttlMs)
  (applied.map .expiry, s)

def handlePersist (clock : ℕ) : Reply × ClientSurfaceState :=
  let (nowMs, s) := s.nowMs clock
  let (applied, s) := s.withLiveEntry identity ns key nowMs clearExpiry
  (applied.map .expiry, s)

def handleGetTtl (clock : ℕ) : Reply × ClientSurfaceState :=
  let (nowMs, s) := s.nowMs clock
  let (state, s) := s.withLiveEntry identity ns key nowMs (readTtl nowMs)
  (state.map .ttl, s)

def handleCompareValueInvalidate (expectedValue : SealedBytes) (clock : ℕ) :
    Reply × ClientSurfaceState :=
  if s.limits.maxValueBytes < expectedValue.length then
    (.error (tooLarge "expected value too large"), s)
  else
    let (nowMs, s) := s.nowMs clock
    let (applied, s) := s.withLiveEntry identity ns key nowMs (removeIfEqual expectedValue)
    (applied.map .compareValueApplied, s)

def handleCompareValueExpire (expectedValue : SealedBytes) (ttlMs : ℕ)
    (mode : CompareValueExpireMode) (clock : ℕ) :
    Reply × ClientSurfaceState :=
  if s.limits.maxValueBytes < expectedValue.length then
    (.error (tooLarge "expected value too large"), s)
  else
    let (nowMs, s) := s.nowMs clock
    let (applied, s) :=
      s.withLiveEntry identity ns key nowMs (expireIfEqual expectedValue nowMs ttlMs mode)
    (applied.map .compareValueApplied, s)

def handleRemoveIfValue (expected : SealedBytes) (level : LockConsistency) (clock : ℕ) :
    Reply × ClientSurfaceState :=
  let (nowMs, s) := s.nowMs clock
  let (result, s) := s.withLiveEntry identity ns key nowMs
    (removeIfValueAction (identity.lockKey ns key) expected (lockConsistency level))
  (result.bind id, s)

/-- An entry is removed whether its deadline has passed or not. -/
def handleInvalidate : Reply × ClientSurfaceState :=
  let (done, s) := s.withAdmittedStore identity fun s ↦
    let storeKey := identity.storeKey ns key
    let removed := (s.store.get storeKey).isSome
    let s := { s with store := s.store.remove storeKey }
    ((), if removed then s.releaseEntry identity ns key else s)
  (done.map fun _ ↦ .invalidated, s)

end

/-! ### Batches -/

/-- The live values under keys one after another, the keys whose entry had expired, and the store
without those entries. -/
def batchGetItems (storeKey : String → EntryKey) (nowMs : ℕ) :
    List String → Store → List (Option SealedBytes) × List String × Store
  | [], store => ([], [], store)
  | key :: keys, store =>
    let (entry, expired, store) := liveEntry store (storeKey key) nowMs
    let (values, expiredKeys, store) := batchGetItems storeKey nowMs keys store
    ((entry.map fun entry ↦ entry.value) :: values,
      if expired then key :: expiredKeys else expiredKeys, store)

/-- The items of a batch, each with its place. -/
def batchItems (values : List (Option SealedBytes)) : ClientResponse :=
  .batch (values.mapIdx fun index value ↦ ⟨index, value⟩)

def handleBatchGet (keys : List String) (clock : ℕ) : Reply × ClientSurfaceState :=
  if s.limits.maxBatchEntries < keys.length then
    (.error (tooLarge "batch contains too many entries"), s)
  else if s.limits.maxBatchBytes <
      keys.foldl (fun total key ↦ saturatingAdd total key.utf8ByteSize) 0 then
    (.error (tooLarge "batch exceeds max_batch_bytes"), s)
  else
    let (nowMs, s) := s.nowMs clock
    let (values, s) := s.withAdmittedStore identity fun s ↦
      let (values, expiredKeys, store) := batchGetItems (identity.storeKey ns) nowMs keys s.store
      (values, expiredKeys.foldl (fun s key ↦ s.releaseEntry identity ns key) { s with store })
    (values.map batchItems, s)

/-- The entries of a batch under their keys, in the order of the batch. -/
def batchEntries (entries : List BatchPutEntry) : List (EntryKey × StoredValue) :=
  entries.map fun entry ↦ (identity.storeKey ns entry.key, .persistent entry.value)

/-- The error of a batch of puts that is too large, if it is. -/
def batchPutError (limits : ClientSurfaceLimits) (entries : List BatchPutEntry) :
    Option ClientErrorEnvelope :=
  if limits.maxBatchEntries < entries.length then some (tooLarge "batch contains too many entries")
  else if limits.maxBatchBytes < entries.foldl
      (fun total entry ↦
        saturatingAdd (saturatingAdd total entry.key.utf8ByteSize) entry.value.length) 0 then
    some (tooLarge "batch exceeds max_batch_bytes")
  else if entries.any fun entry ↦ limits.maxValueBytes < entry.value.length then
    some (tooLarge "batch item value too large")
  else none

def handleBatchPut (entries : List BatchPutEntry) : Reply × ClientSurfaceState :=
  match batchPutError s.limits entries with
  | some error => (.error error, s)
  | none =>
    let commit (s : ClientSurfaceState) : Bool × ClientSurfaceState :=
      (true, { s with store := s.store.insertAll (batchEntries identity ns entries) })
    let items := batchItems (entries.map fun _ ↦ none)
    match s.isolation with
    | none => (.ok items, (commit s).2)
    | some isolation =>
      let quotaEntries := entries.map fun entry ↦ (entry.key, entry.value.length)
      let (admitted, isolation, s) :=
        isolation.admitBatchPutIfCommitted identity.clientId ns quotaEntries commit s
      ((admitted.mapError admissionError).map fun _ ↦ items, { s with isolation := some isolation })

/-! ### Puts -/

/-- A put was admitted and committed. -/
def isCommitted : Except ClientErrorEnvelope Bool → Bool
  | .ok committed => committed
  | .error _ => false

/-- Admit a put and write the entry, if its condition holds. -/
def admitPut (key : String) (entry : StoredValue) (conditionHolds : Bool) :
    Except ClientErrorEnvelope Bool × ClientSurfaceState :=
  let commit (s : ClientSurfaceState) : Bool × ClientSurfaceState :=
    (true, { s with store := s.store.insert (identity.storeKey ns key) entry })
  match s.isolation with
  | none => (.ok conditionHolds, if conditionHolds then (commit s).2 else s)
  | some isolation =>
    let (admitted, isolation, s) := isolation.admitPutIfCommitted identity.clientId ns key
      entry.value.length conditionHolds commit s
    (admitted.mapError admissionError, { s with isolation := some isolation })

def handlePut (idempotencyKey : Option String)
    (ns key : String) (value : SealedBytes) (ttlMs : Option ℕ) (clock : ℕ) :
    Reply × ClientSurfaceState :=
  if s.limits.maxValueBytes < value.length then (.error (tooLarge "value too large"), s)
  else
    let (nowMs, s) := s.nowMs clock
    let entry := StoredValue.stored value nowMs ttlMs
    match idempotencyKey with
    | none =>
      let (admitted, s) := s.admitPut identity ns key entry true
      (admitted.map fun _ ↦ .stored, s)
    | some idempotencyKey =>
      let scopedKey := (identity.tenant, idempotencyKey)
      match checkIdempotency s.idempotencyKeys nowMs scopedKey with
      | (some reply, idempotencyKeys) => (reply, { s with idempotencyKeys })
      | (none, idempotencyKeys) =>
        match { s with idempotencyKeys }.admitPut identity ns key entry true with
        | (.error error, s) => (.error error, s)
        | (.ok _, s) =>
          (.ok .stored,
            { s with
              idempotencyKeys := s.idempotencyKeys.insert scopedKey
                (saturatingAdd nowMs idempotencyTtlMs) })

def handleConditionalPut (key : String)
    (value : SealedBytes) (ttlMs : Option ℕ) (condition : ConditionalPutCondition) (clock : ℕ) :
    Reply × ClientSurfaceState :=
  if s.limits.maxValueBytes < value.length then (.error (tooLarge "value too large"), s)
  else if condition.expectedBytes.any (s.limits.maxValueBytes < ·) then
    (.error (tooLarge "expected value too large"), s)
  else
    let (nowMs, s) := s.nowMs clock
    let (entry, expired, store) := liveEntry s.store (identity.storeKey ns key) nowMs
    let (admitted, s) := { s with store }.admitPut identity ns key (.stored value nowMs ttlMs)
      (condition.holds entry)
    (admitted.map .conditionalStored,
      if expired && !isCommitted admitted then s.releaseEntry identity ns key else s)

/-! ### Compare-and-set -/

/-- Run a compare-and-set on the live value, and store the new value if it applied. -/
def compareAndSet (key : String) (live : Option SealedBytes) (expected : CasExpectation)
    (newValue : SealedBytes) (level : LockConsistency) : Reply × ClientSurfaceState :=
  let (result, lockService) := s.lockService.applyCompareAndSet (identity.lockKey ns key) live
    expected newValue (lockConsistency level)
  (result,
    { s with
      lockService
      store := if isCasApplied result then
        s.store.insert (identity.storeKey ns key) (.persistent newValue) else s.store })

section

variable (isolation : ConsumerIsolation) (identity : ClientIdentity) (ns key : String)
  (live : Option SealedBytes) (expired : Bool) (expected : CasExpectation) (newValue : SealedBytes)
  (level : LockConsistency)

/-- Compare-and-set under tenant isolation when the live value is as expected: the admission commits
it. -/
def admitCompareAndSet : Reply × ClientSurfaceState :=
  let commit (outside : Reply × ClientSurfaceState) : Bool × Reply × ClientSurfaceState :=
    let (result, s) := outside.2.compareAndSet identity ns key live expected newValue level
    (isCasApplied result, result, s)
  -- an admission without an error has run the commit, so the first result is never read
  let (admitted, isolation, result, s) := isolation.admitPutIfCommitted identity.clientId ns key
    newValue.length true commit (.ok (.casMismatch live), s)
  let s := { s with isolation := some isolation }
  match admitted with
  | .error error =>
    (.error (admissionError error), if expired then s.releaseEntry identity ns key else s)
  | .ok committed => (result, if expired && !committed then s.releaseEntry identity ns key else s)

/-- Compare-and-set under tenant isolation when the live value is not as expected: the admission
charges nothing, and the conditional store answers. -/
def rejectCompareAndSet : Reply × ClientSurfaceState :=
  let (admitted, isolation, s) := isolation.admitPutIfCommitted identity.clientId ns key
    newValue.length false (fun s ↦ (false, s)) s
  let s := { s with isolation := some isolation }
  let s := if expired then s.releaseEntry identity ns key else s
  match admitted with
  | .error error => (.error (admissionError error), s)
  | .ok _ =>
    let (result, lockService) := s.lockService.applyCompareAndSet (identity.lockKey ns key) live
      expected newValue (lockConsistency level)
    (result, { s with lockService })

end

def handleCompareAndSet (key : String)
    (expected : CasExpectation) (newValue : SealedBytes) (level : LockConsistency) (clock : ℕ) :
    Reply × ClientSurfaceState :=
  if s.limits.maxValueBytes < newValue.length then (.error (tooLarge "value too large"), s)
  else
    let (nowMs, s) := s.nowMs clock
    let (entry, expired, store) := liveEntry s.store (identity.storeKey ns key) nowMs
    let live := entry.map fun entry ↦ entry.value
    let s := { s with store }
    match s.isolation with
    | none => s.compareAndSet identity ns key live expected newValue level
    | some isolation =>
      if expected.holds live then
        s.admitCompareAndSet isolation identity ns key live expired expected newValue level
      else s.rejectCompareAndSet isolation identity ns key live expired expected newValue level

/-! ### Namespaces, subscriptions and locks -/

def handleEvictRegion : Reply × ClientSurfaceState :=
  let store := s.store.retain fun key ↦ !key.isIn identity.tenant ns
  match s.isolation with
  | none => (.ok .evicted, { s with store })
  | some isolation =>
    match isolation.evictNamespace identity.clientId ns with
    | (.error error, isolation) =>
      (.error (admissionError error), { s with isolation := some isolation })
    | (.ok _, isolation) => (.ok .evicted, { s with store, isolation := some isolation })

def handleSubscribe (start : Option Watermark) : Reply × ClientSurfaceState :=
  match s.isolation with
  | none => (.ok (.subscribed start), s)
  | some isolation =>
    let (begun, isolation) := isolation.beginSubscription identity.clientId
    ((begun.mapError admissionError).map fun _ ↦ .subscribed start,
      { s with isolation := some isolation })

/-- A request to the lock service. -/
def onLockService (command : ClientLockService → Reply × ClientLockService) :
    Reply × ClientSurfaceState :=
  let (reply, lockService) := command s.lockService
  (reply, { s with lockService })

def handleForceUnlock (key : String) : Reply × ClientSurfaceState :=
  if identity.admin then
    match s.recordAudit with
    | (.error error, s) => (.error error, s)
    | (.ok (), s) => s.onLockService (·.forceUnlock (identity.lockKey ns key))
  else (.error adminError, s.recordAudit.2)

end

/-! ### Dispatch -/

/-- The handler of a request. -/
def handle (idempotencyKey : Option String) (clock : ℕ) : ClientRequest → Reply × ClientSurfaceState
  | .get ns key => s.handleGet identity ns key clock
  | .put ns key value ttlMs => s.handlePut identity idempotencyKey ns key value ttlMs clock
  | .invalidate ns key => s.handleInvalidate identity ns key
  | .batchGet ns keys => s.handleBatchGet identity ns keys clock
  | .batchPut ns entries => s.handleBatchPut identity ns entries
  | .expire ns key ttlMs => s.handleExpire identity ns key ttlMs clock
  | .persist ns key => s.handlePersist identity ns key clock
  | .getTtl ns key => s.handleGetTtl identity ns key clock
  | .conditionalPut ns key value ttlMs condition =>
    s.handleConditionalPut identity ns key value ttlMs condition clock
  | .compareValueAndInvalidate ns key expectedValue =>
    s.handleCompareValueInvalidate identity ns key expectedValue clock
  | .compareValueAndExpire ns key expectedValue ttlMs mode =>
    s.handleCompareValueExpire identity ns key expectedValue ttlMs mode clock
  | .evictRegion ns => s.handleEvictRegion identity ns
  | .subscribeInvalidations _ start => s.handleSubscribe identity start
  | .subscribeEntryEvents _ start => s.handleSubscribe identity start
  | .tryLock ns key leaseMs level =>
    s.onLockService
      (·.tryLock (identity.lockKey ns key) identity.lockOwner leaseMs (lockConsistency level))
  | .unlock ns key fence =>
    s.onLockService (·.unlock (identity.lockKey ns key) identity.lockOwner fence)
  | .renewLockLease ns key fence leaseMs =>
    s.onLockService (·.renewLock (identity.lockKey ns key) identity.lockOwner fence leaseMs)
  | .forceUnlock ns key => s.handleForceUnlock identity ns key
  | .getLockOwnership ns key => s.onLockService (·.lockOwnership (identity.lockKey ns key))
  | .compareAndSet ns key expected newValue level =>
    s.handleCompareAndSet identity ns key expected newValue level clock
  | .removeIfValue ns key expected level =>
    s.handleRemoveIfValue identity ns key expected level clock

/-- The rejections that enter the audit. -/
def isAudited (request : ClientRequest) : Reply → Bool
  | .ok _ => false
  | .error error =>
    match error.code with
    | .tenantQuota | .rateLimited => true
    | .unauthorized =>
      match request with
      | .forceUnlock .. => false
      | _ => true
    | _ => false

def recordRejectionAudit (request : ClientRequest) (reply : Reply) : ClientSurfaceState :=
  if isAudited request reply then s.recordAudit.2 else s

/-- Check the envelope, sweep if it is time to, and handle the request. The sweep and the handler
read the clock once each. -/
def handleRequest (envelope : ClientRequestEnvelope) (sweepClock clock : ℕ) :
    Reply × ClientSurfaceState :=
  match envelope.validateProtocol with
  | .error error => (.error error, s)
  | .ok () =>
    if envelope.deadlineExpired 0 then (.error deadlineError, s)
    else
      let (nowMs, s) := s.nowMs sweepClock
      let (reply, s) := (s.sweepExpiredEntries nowMs false).handle identity envelope.idempotencyKey
        clock envelope.request
      (reply, s.recordRejectionAudit envelope.request reply)

/-- The tenant of the identity is the one its client is bound to. -/
def validateTenantIdentity : Bool :=
  match s.isolation with
  | none => true
  | some isolation => decide (isolation.roster.resolve identity.clientId = some identity.tenant)

def dispatchVerifiedRequest
    (envelope : ClientRequestEnvelope) (sweepClock clock : ℕ) : Reply × ClientSurfaceState :=
  if s.validateTenantIdentity identity then s.handleRequest identity envelope sweepClock clock
  else (.error tenantError, s.recordAudit.2)

end

end

end ClientSurfaceState

/-! ### Events -/

/-- What happens to a surface: a request with the system clock at its two readings, or a sweep of
the maintenance or of a diagnostic snapshot, which is forced. -/
inductive SurfaceEvent where
  | request (identity : ClientIdentity) (envelope : ClientRequestEnvelope) (sweepClock clock : ℕ)
  | sweep (clock : ℕ) (force : Bool)
deriving DecidableEq

/-- The response to an event, if it is a request, and the surface after it. -/
def ClientSurfaceState.apply (s : ClientSurfaceState) : SurfaceEvent →
    Option Reply × ClientSurfaceState
  | .request identity envelope sweepClock clock =>
    let (reply, s) := s.dispatchVerifiedRequest identity envelope sweepClock clock
    (some reply, s)
  | .sweep clock force =>
    let (nowMs, s) := s.nowMs clock
    (none, s.sweepExpiredEntries nowMs force)

end HydraCache.Client
