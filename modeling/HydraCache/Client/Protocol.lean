import HydraCache.Grid.ConditionalStore

/-!
# The client protocol

Requests of clients, the responses to them and the errors, with the checks that a request passes
before anything else: its protocol version has to be supported and recent enough for the operation
(`ClientRequestEnvelope.validateProtocol`), and its deadline must not have passed.

Scope. A namespace and a structured key are their texts; blank ones are refused where they are made.
The dimensions of a put and the filters of a subscription are carried and not read, and are left
out, as are the request id and the version that a response repeats.
-/

set_option autoImplicit false

namespace HydraCache.Client

open Grid

/-! ### Requests -/

/-- Where a subscription starts. -/
structure Watermark where
  sourceGeneration : ℕ
  messageId : ℕ
deriving DecidableEq

inductive LockConsistency where
  | one
  | quorum
  | eachQuorum
  | all
deriving DecidableEq

inductive ConditionalPutCondition where
  | ifAbsent
  | ifPresentValue (expected : SealedBytes)
deriving DecidableEq

inductive CompareValueExpireMode where
  | replace
  | replaceIfExpiring
  | addToRemaining
deriving DecidableEq

inductive CasExpectation where
  | exact (expected : SealedBytes)
  | present
deriving DecidableEq

structure BatchPutEntry where
  key : String
  value : SealedBytes
deriving DecidableEq

inductive ClientRequest where
  | get (ns key : String)
  | put (ns key : String) (value : SealedBytes) (ttlMs : Option ℕ)
  | invalidate (ns key : String)
  | batchGet (ns : String) (keys : List String)
  | batchPut (ns : String) (entries : List BatchPutEntry)
  | expire (ns key : String) (ttlMs : ℕ)
  | persist (ns key : String)
  | getTtl (ns key : String)
  | conditionalPut (ns key : String) (value : SealedBytes) (ttlMs : Option ℕ)
      (condition : ConditionalPutCondition)
  | compareValueAndInvalidate (ns key : String) (expectedValue : SealedBytes)
  | compareValueAndExpire (ns key : String) (expectedValue : SealedBytes) (ttlMs : ℕ)
      (mode : CompareValueExpireMode)
  | evictRegion (ns : String)
  | subscribeInvalidations (ns : String) (start : Option Watermark)
  | subscribeEntryEvents (ns : String) (start : Option Watermark)
  | tryLock (ns key : String) (leaseMs : ℕ) (level : LockConsistency)
  | unlock (ns key : String) (fence : ℕ)
  | renewLockLease (ns key : String) (fence leaseMs : ℕ)
  | forceUnlock (ns key : String)
  | getLockOwnership (ns key : String)
  | compareAndSet (ns key : String) (expected : CasExpectation) (newValue : SealedBytes)
      (level : LockConsistency)
  | removeIfValue (ns key : String) (expected : SealedBytes) (level : LockConsistency)
deriving DecidableEq

structure ClientRequestEnvelope where
  protocolVersion : ℕ := 4
  deadlineMs : Option ℕ := none
  idempotencyKey : Option String := none
  request : ClientRequest
deriving DecidableEq

/-! ### Responses -/

inductive TtlState where
  | missing
  | persistent
  | expiresIn (ttlMs : ℕ)
deriving DecidableEq

structure BatchItemStatus where
  index : ℕ
  value : Option SealedBytes
deriving DecidableEq

inductive ClientResponse where
  | value (value : Option SealedBytes)
  | stored
  | invalidated
  | batch (items : List BatchItemStatus)
  | expiry (applied : Bool)
  | ttl (state : TtlState)
  | conditionalStored (stored : Bool)
  | compareValueApplied (applied : Bool)
  | evicted
  | subscribed (start : Option Watermark)
  | lockAcquired (fence : ℕ)
  | lockBusy
  | lockReleased
  | lockLeaseRenewed
  | lockOwnership (fence : Option ℕ) (locked : Bool)
  | casApplied (newVersion : ℕ)
  | casMismatch (current : Option SealedBytes)
deriving DecidableEq

inductive ClientErrorCode where
  | incompatibleVersion
  | unauthorized
  | tenantQuota
  | rateLimited
  | tooLarge
  | deadlineExceeded
  | conflict
  | backendUnavailable
deriving DecidableEq

/-- The message of an error; that of an error of the conditional store is a function of the
error. -/
inductive ErrorMessage where
  | text (text : String)
  | conditional (error : ConditionalError)
deriving DecidableEq

structure ClientErrorEnvelope where
  code : ClientErrorCode
  retryable : Bool
  retryAfterMs : Option ℕ := none
  message : ErrorMessage
deriving DecidableEq

/-- What stands before the first occurrence of a marker. -/
def cutAt (marker : List Char) : List Char → Option (List Char)
  | [] => none
  | c :: rest => if marker.isPrefixOf (c :: rest) then some [] else (cutAt marker rest).map (c :: ·)

/-- The message up to the first value, secret or token it would show. -/
def redactMessage (message : String) : String :=
  ["value=", "secret=", "token="].foldl
    (fun message marker ↦
      match cutAt marker.toList message.toList with
      | some kept => String.ofList (kept ++ marker.toList ++ "<redacted>".toList)
      | none => message)
    message

namespace ClientErrorEnvelope

def new (code : ClientErrorCode) (retryable : Bool) (message : String) : ClientErrorEnvelope where
  code
  retryable
  message := .text (redactMessage message)

def withRetryAfterMs (error : ClientErrorEnvelope) (retryAfterMs : ℕ) : ClientErrorEnvelope :=
  { error with retryAfterMs := some retryAfterMs }

end ClientErrorEnvelope

/-- A request is too large for a limit. -/
def tooLarge (message : String) : ClientErrorEnvelope := .new .tooLarge false message

/-! ### Protocol versions -/

def minProtocolVersion : ℕ := 1

def lockProtocolVersion : ℕ := 2

def ttlProtocolVersion : ℕ := 3

def redisLockProtocolVersion : ℕ := 4

def latestProtocolVersion : ℕ := 4

namespace ClientRequest

def minimumProtocolVersion : ClientRequest → ℕ
  | get .. | invalidate .. | batchGet .. | batchPut .. | evictRegion ..
    | subscribeInvalidations .. =>
    minProtocolVersion
  | put _ _ _ (some _) | expire .. | persist .. | getTtl .. => ttlProtocolVersion
  | conditionalPut .. | compareValueAndInvalidate .. | compareValueAndExpire .. =>
    redisLockProtocolVersion
  | put _ _ _ none => minProtocolVersion
  | subscribeEntryEvents .. | tryLock .. | unlock .. | renewLockLease .. | forceUnlock ..
  | getLockOwnership .. | compareAndSet .. | removeIfValue .. => lockProtocolVersion

def operationName : ClientRequest → String
  | get .. => "get"
  | put .. => "put"
  | invalidate .. => "invalidate"
  | batchGet .. => "batch_get"
  | batchPut .. => "batch_put"
  | expire .. => "expire"
  | persist .. => "persist"
  | getTtl .. => "get_ttl"
  | conditionalPut .. => "conditional_put"
  | compareValueAndInvalidate .. => "compare_value_and_invalidate"
  | compareValueAndExpire .. => "compare_value_and_expire"
  | evictRegion .. => "evict_region"
  | subscribeInvalidations .. => "subscribe_invalidations"
  | subscribeEntryEvents .. => "subscribe_entry_events"
  | tryLock .. => "try_lock"
  | unlock .. => "unlock"
  | renewLockLease .. => "renew_lock_lease"
  | forceUnlock .. => "force_unlock"
  | getLockOwnership .. => "get_lock_ownership"
  | compareAndSet .. => "compare_and_set"
  | removeIfValue .. => "remove_if_value"

end ClientRequest

def ensureSupportedProtocolVersion (version : ℕ) : Except ClientErrorEnvelope Unit :=
  if minProtocolVersion ≤ version ∧ version ≤ latestProtocolVersion then .ok ()
  else .error (.new .incompatibleVersion false
    (s!"unsupported HydraCache client protocol version {version}; supported range is " ++
      s!"{minProtocolVersion}..={latestProtocolVersion}"))

def requireProtocolVersion (version requiredMin : ℕ) (operation : String) :
    Except ClientErrorEnvelope Unit := do
  ensureSupportedProtocolVersion version
  if requiredMin ≤ version then .ok ()
  else .error (.new .incompatibleVersion false
    s!"{operation} requires HydraCache client protocol version {requiredMin} or newer")

namespace ClientRequestEnvelope

def validateProtocol (envelope : ClientRequestEnvelope) : Except ClientErrorEnvelope Unit :=
  requireProtocolVersion envelope.protocolVersion envelope.request.minimumProtocolVersion
    envelope.request.operationName

def deadlineExpired (envelope : ClientRequestEnvelope) (nowMs : ℕ) : Bool :=
  envelope.deadlineMs.any (· ≤ nowMs)

end ClientRequestEnvelope

end HydraCache.Client
