import HydraCache.Client.Surface

/-!
# A map whose entries vanish at their deadlines

What a client may expect of the client surface, said without sweeps: a map from keys to entries in
which an entry is gone as soon as the clock reaches its deadline. `vanish` is that: it runs whenever
the clock is read and after every write, so every entry of the map is live, and a request acts on
what is in the map.

Conditional writes are decided by the map: they apply when the entry is as expected and tell its
value otherwise. Only the version of a write that applied, and errors, come from the conditional
store (`decided`).

Scope. Requests are admitted against the rates, the shares and the limits of their tenant as on the
surface, but there is no ledger. Whether the quota of a namespace is exceeded is not a question to
the map: `refused` tells it of each write that is turned away for that.
-/

set_option autoImplicit false

namespace HydraCache.Client

open Lib Grid

/-! ### Admission without a ledger -/

namespace ConsumerIsolation

/-- The admission of requests with nothing in the ledger. -/
def forgetLedger (i : ConsumerIsolation) : ConsumerIsolation := { i with entries := ∅, usage := ∅ }

/-- Admit a write, unless a limit is exceeded or the quota refuses it. -/
def admitUncharged (i : ConsumerIsolation)
    (limit : ConsumerIsolationConfig → Option AdmissionRejection) (client ns : String)
    (refused : Bool) : Except AdmissionRejection Unit × ConsumerIsolation :=
  match limit i.config with
  | some error => (.error error, i)
  | none =>
    match i.admitWrite client ns with
    | (.error error, i) => (.error error, i)
    | (.ok (tenant, _), i) =>
      if refused then (.error (.rejectQuota tenant.id ns 100), i) else (.ok (), i)

end ConsumerIsolation

/-! ### The map -/

/-- The entries of a store that are live. -/
def vanish (nowMs : ℕ) (store : Store) : Store := store.filter fun _ entry ↦ !entry.isExpired nowMs

/-- What is under a key after a change. -/
def EntryChange.result (entry : Option StoredValue) : EntryChange → Option StoredValue
  | .keep => entry
  | .update entry => some entry
  | .remove => none

/-- The answer to a conditional write: the live value decides, the conditional store gives the
version. -/
def decided (met : Bool) (live : Option SealedBytes) (answer : Reply) : Reply :=
  answer.map fun response ↦ if met then response else .casMismatch live

/-- Remove the entry if its value is the one expected. -/
def decidedRemove (lockKey : Key) (expected : SealedBytes) (level : ConsistencyLevel) :
    EntryAction Reply := fun entry locks ↦
  let live := entry.map fun entry ↦ entry.value
  let met := decide (live = some expected)
  let (answer, locks) := locks.applyRemoveIfValue lockKey live expected level
  (decided met live answer, if met && answer.isOk then .remove else .keep, locks)

/-- The quota turns the request away. -/
def isQuotaRefusal {α : Type} : Except ClientErrorEnvelope α → Bool
  | .ok _ => false
  | .error error => decide (error.code = .tenantQuota)

structure ReferenceMap where
  limits : ClientSurfaceLimits
  map : Store := ∅
  clockMs : ℕ := 0
  idempotencyKeys : IdempotencyTable := ∅
  lockService : ClientLockService := {}
  auditEvents : ℕ := 0
  isolation : Option ConsumerIsolation

namespace ReferenceMap

def new (limits : ClientSurfaceLimits) (isolation : Option ConsumerIsolation) : ReferenceMap where
  limits
  isolation := isolation.map ConsumerIsolation.forgetLedger

/-- Let the clock move on; entries whose deadline it reaches vanish. -/
def readClock (r : ReferenceMap) (systemMs : ℕ) : ℕ × ReferenceMap :=
  let nowMs := max systemMs r.clockMs
  (nowMs, { r with clockMs := nowMs, map := vanish nowMs r.map })

/-- Write or remove an entry. An entry whose deadline is now does not stay. -/
def write (r : ReferenceMap) (key : EntryKey) (entry : Option StoredValue) : ReferenceMap :=
  { r with map := vanish r.clockMs (r.map.set key entry) }

def recordAudit (r : ReferenceMap) : Except ClientErrorEnvelope Unit × ReferenceMap :=
  if auditCapacity ≤ r.auditEvents then (.error auditError, r)
  else (.ok (), { r with auditEvents := r.auditEvents + 1 })

/-! ### Admission -/

section

variable {α : Type} (r : ReferenceMap)

section

variable (identity : ClientIdentity)

/-- Act once a request is admitted. -/
def withAdmitted (act : ReferenceMap → α × ReferenceMap) :
    Except ClientErrorEnvelope α × ReferenceMap :=
  match r.isolation with
  | none =>
    let (answer, r) := act r
    (.ok answer, r)
  | some isolation =>
    match isolation.admitRequest identity.clientId with
    | (.error error, isolation) =>
      (.error (admissionError error), { r with isolation := some isolation })
    | (.ok _, isolation) =>
      let (answer, r) := act { r with isolation := some isolation }
      (.ok answer, r)

section

variable (ns : String)

def admitWrite (limit : ConsumerIsolationConfig → Option AdmissionRejection) (refused : Bool) :
    Except ClientErrorEnvelope Unit × ReferenceMap :=
  match r.isolation with
  | none => (.ok (), r)
  | some isolation =>
    let (admitted, isolation) := isolation.admitUncharged limit identity.clientId ns refused
    (admitted.mapError admissionError, { r with isolation := some isolation })

/-! ### Requests -/

/-- Act on the entry under a key. -/
def actOn (key : EntryKey) (action : EntryAction α) (r : ReferenceMap) : α × ReferenceMap :=
  let entry := r.map.get key
  let (answer, change, lockService) := action entry r.lockService
  (answer, { r with lockService }.write key (change.result entry))

/-- A request about the entry under a key. -/
def onEntry (key : String) (clock : ℕ)
    (action : ℕ → EntryAction α) (respond : Except ClientErrorEnvelope α → Reply) :
    Reply × ReferenceMap :=
  let (nowMs, r) := r.readClock clock
  let (answer, r) := r.withAdmitted identity (actOn (identity.storeKey ns key) (action nowMs))
  (respond answer, r)

def invalidate (key : String) : Reply × ReferenceMap :=
  let (done, r) := r.withAdmitted identity fun r ↦ ((), r.write (identity.storeKey ns key) none)
  (done.map fun _ ↦ .invalidated, r)

def batchGet (keys : List String) (clock : ℕ) : Reply × ReferenceMap :=
  if r.limits.maxBatchEntries < keys.length then
    (.error (tooLarge "batch contains too many entries"), r)
  else if r.limits.maxBatchBytes <
      keys.foldl (fun total key ↦ saturatingAdd total key.utf8ByteSize) 0 then
    (.error (tooLarge "batch exceeds max_batch_bytes"), r)
  else
    let (_, r) := r.readClock clock
    let (values, r) := r.withAdmitted identity fun r ↦
      (keys.map fun key ↦ (r.map.get (identity.storeKey ns key)).map fun entry ↦ entry.value, r)
    (values.map ClientSurfaceState.batchItems, r)

def batchPut (entries : List BatchPutEntry) (refused : Bool) : Reply × ReferenceMap :=
  match ClientSurfaceState.batchPutError r.limits entries with
  | some error => (.error error, r)
  | none =>
    match r.admitWrite identity ns
      (ConsumerIsolation.batchLimit (entries.map fun entry ↦ entry.value.length)) refused with
    | (.error error, r) => (.error error, r)
    | (.ok (), r) =>
      (.ok (ClientSurfaceState.batchItems (entries.map fun _ ↦ none)),
        { r with
          map := vanish r.clockMs
            (r.map.insertAll (ClientSurfaceState.batchEntries identity ns entries)) })

/-- Write an entry, if its condition is met. -/
def putEntry (key : String) (entry : StoredValue)
    (met refused : Bool) : Except ClientErrorEnvelope Bool × ReferenceMap :=
  match r.admitWrite identity ns (ConsumerIsolation.putLimit entry.value.length) refused with
  | (.error error, r) => (.error error, r)
  | (.ok (), r) => (.ok met, if met then r.write (identity.storeKey ns key) (some entry) else r)

def put (idempotencyKey : Option String)
    (ns key : String) (value : SealedBytes) (ttlMs : Option ℕ) (clock : ℕ) (refused : Bool) :
    Reply × ReferenceMap :=
  if r.limits.maxValueBytes < value.length then (.error (tooLarge "value too large"), r)
  else
    let (nowMs, r) := r.readClock clock
    let entry := StoredValue.stored value nowMs ttlMs
    match idempotencyKey with
    | none =>
      let (admitted, r) := r.putEntry identity ns key entry true refused
      (admitted.map fun _ ↦ .stored, r)
    | some idempotencyKey =>
      let scopedKey := (identity.tenant, idempotencyKey)
      match checkIdempotency r.idempotencyKeys nowMs scopedKey with
      | (some reply, idempotencyKeys) => (reply, { r with idempotencyKeys })
      | (none, idempotencyKeys) =>
        match { r with idempotencyKeys }.putEntry identity ns key entry true refused with
        | (.error error, r) => (.error error, r)
        | (.ok _, r) =>
          (.ok .stored,
            { r with
              idempotencyKeys := r.idempotencyKeys.insert scopedKey
                (saturatingAdd nowMs idempotencyTtlMs) })

def conditionalPut (key : String) (value : SealedBytes) (ttlMs : Option ℕ)
    (condition : ConditionalPutCondition) (clock : ℕ) (refused : Bool) : Reply × ReferenceMap :=
  if r.limits.maxValueBytes < value.length then (.error (tooLarge "value too large"), r)
  else if condition.expectedBytes.any (r.limits.maxValueBytes < ·) then
    (.error (tooLarge "expected value too large"), r)
  else
    let (nowMs, r) := r.readClock clock
    let entry := r.map.get (identity.storeKey ns key)
    let (admitted, r) :=
      r.putEntry identity ns key (.stored value nowMs ttlMs) (condition.holds entry)
      refused
    (admitted.map .conditionalStored, r)

/-- Write a value if the live one is as expected and the conditional store gives it a version. -/
def decideCas (key : String) (live : Option SealedBytes) (expected : CasExpectation)
    (newValue : SealedBytes) (level : LockConsistency) : Reply × ReferenceMap :=
  let met := expected.holds live
  let (answer, lockService) :=
    r.lockService.applyCompareAndSet (identity.lockKey ns key) live expected
    newValue (lockConsistency level)
  let r := { r with lockService }
  (decided met live answer,
    if met && answer.isOk then r.write (identity.storeKey ns key) (some (.persistent newValue))
      else r)

def compareAndSet (key : String) (expected : CasExpectation) (newValue : SealedBytes)
    (level : LockConsistency) (clock : ℕ) (refused : Bool) : Reply × ReferenceMap :=
  if r.limits.maxValueBytes < newValue.length then (.error (tooLarge "value too large"), r)
  else
    let (_, r) := r.readClock clock
    let live := (r.map.get (identity.storeKey ns key)).map fun entry ↦ entry.value
    match r.admitWrite identity ns (ConsumerIsolation.putLimit newValue.length) refused with
    | (.error error, r) => (.error error, r)
    | (.ok (), r) => r.decideCas identity ns key live expected newValue level

def evictRegion : Reply × ReferenceMap :=
  let (done, r) := r.withAdmitted identity fun r ↦
    ((), { r with map := r.map.retain fun key ↦ !key.isIn identity.tenant ns })
  (done.map fun _ ↦ .evicted, r)

end

def subscribe (start : Option Watermark) : Reply × ReferenceMap :=
  match r.isolation with
  | none => (.ok (.subscribed start), r)
  | some isolation =>
    let (begun, isolation) := isolation.beginSubscription identity.clientId
    ((begun.mapError admissionError).map fun _ ↦ .subscribed start,
      { r with isolation := some isolation })

def onLockService (command : ClientLockService → Reply × ClientLockService) :
    Reply × ReferenceMap :=
  let (reply, lockService) := command r.lockService
  (reply, { r with lockService })

def forceUnlock (ns key : String) : Reply × ReferenceMap :=
  if identity.admin then
    match r.recordAudit with
    | (.error error, r) => (.error error, r)
    | (.ok (), r) => r.onLockService (·.forceUnlock (identity.lockKey ns key))
  else (.error adminError, r.recordAudit.2)

/-- An expected value that is too large is refused before the map is looked at. -/
def boundExpected (expectedValue : SealedBytes) (request : Reply × ReferenceMap) :
    Reply × ReferenceMap :=
  if r.limits.maxValueBytes < expectedValue.length then
    (.error (tooLarge "expected value too large"), r)
  else request

/-- The answer to a request. `refused` says whether the quota turns it away. -/
def answer (idempotencyKey : Option String)
    (clock : ℕ) (refused : Bool) : ClientRequest → Reply × ReferenceMap
  | .get ns key => r.onEntry identity ns key clock (fun _ ↦ readValue) (·.map .value)
  | .put ns key value ttlMs => r.put identity idempotencyKey ns key value ttlMs clock refused
  | .invalidate ns key => r.invalidate identity ns key
  | .batchGet ns keys => r.batchGet identity ns keys clock
  | .batchPut ns entries => r.batchPut identity ns entries refused
  | .expire ns key ttlMs =>
    r.onEntry identity ns key clock (fun nowMs ↦ setExpiry nowMs ttlMs) (·.map .expiry)
  | .persist ns key => r.onEntry identity ns key clock (fun _ ↦ clearExpiry) (·.map .expiry)
  | .getTtl ns key => r.onEntry identity ns key clock readTtl (·.map .ttl)
  | .conditionalPut ns key value ttlMs condition =>
    r.conditionalPut identity ns key value ttlMs condition clock refused
  | .compareValueAndInvalidate ns key expectedValue =>
    r.boundExpected expectedValue <|
      r.onEntry identity ns key clock (fun _ ↦ removeIfEqual expectedValue)
        (·.map .compareValueApplied)
  | .compareValueAndExpire ns key expectedValue ttlMs mode =>
    r.boundExpected expectedValue <|
      r.onEntry identity ns key clock (fun nowMs ↦ expireIfEqual expectedValue nowMs ttlMs mode)
        (·.map .compareValueApplied)
  | .evictRegion ns => r.evictRegion identity ns
  | .subscribeInvalidations _ start => r.subscribe identity start
  | .subscribeEntryEvents _ start => r.subscribe identity start
  | .tryLock ns key leaseMs level =>
    r.onLockService
      (·.tryLock (identity.lockKey ns key) identity.lockOwner leaseMs (lockConsistency level))
  | .unlock ns key fence =>
    r.onLockService (·.unlock (identity.lockKey ns key) identity.lockOwner fence)
  | .renewLockLease ns key fence leaseMs =>
    r.onLockService (·.renewLock (identity.lockKey ns key) identity.lockOwner fence leaseMs)
  | .forceUnlock ns key => r.forceUnlock identity ns key
  | .getLockOwnership ns key => r.onLockService (·.lockOwnership (identity.lockKey ns key))
  | .compareAndSet ns key expected newValue level =>
    r.compareAndSet identity ns key expected newValue level clock refused
  | .removeIfValue ns key expected level =>
    r.onEntry identity ns key clock
      (fun _ ↦ decidedRemove (identity.lockKey ns key) expected (lockConsistency level))
      (·.bind id)

/-! ### Events -/

/-- The tenant of the identity is the one its client is bound to. -/
def isBound : Bool :=
  match r.isolation with
  | none => true
  | some isolation => decide (isolation.roster.resolve identity.clientId = some identity.tenant)

def request (envelope : ClientRequestEnvelope)
    (sweepClock clock : ℕ) (refused : Bool) : Reply × ReferenceMap :=
  if r.isBound identity then
    match envelope.validateProtocol with
    | .error error => (.error error, r)
    | .ok () =>
      if envelope.deadlineExpired 0 then (.error deadlineError, r)
      else
        let (reply, r) := (r.readClock sweepClock).2.answer identity envelope.idempotencyKey clock
          refused envelope.request
        (reply, if ClientSurfaceState.isAudited envelope.request reply then r.recordAudit.2 else r)
  else (.error tenantError, r.recordAudit.2)

end

/-- An event of the surface, and whether the quota turns it away. To the map a sweep is a reading of
the clock. -/
def apply : SurfaceEvent × Bool → Option Reply × ReferenceMap
  | (.request identity envelope sweepClock clock, refused) =>
    let (reply, r) := r.request identity envelope sweepClock clock refused
    (some reply, r)
  | (.sweep clock _, _) => (none, (r.readClock clock).2)

end

end ReferenceMap

end HydraCache.Client
