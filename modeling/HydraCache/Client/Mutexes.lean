import Mathlib.Data.Fintype.Order
import HydraCache.Client.Protocol
import HydraCache.Lib.LockOrder

/-!
# The mutexes of the client surface

Threads of the server call into one client surface, which keeps its parts behind mutexes: the
outcomes by idempotency key, the quota ledger of isolated tenants, the values, the lock service, the
cursor of the expiry sweep, the audit recorder with the sink that it writes to, and the clock that
tests set. What every call takes, and what it holds meanwhile, is written here call by call.

A sweep takes the ledger and the values under its cursor, a put takes them under the outcomes, a
compare-and-set takes the lock service under the values, and diagnostics take the sink under that.
Nothing takes a mutex the other way round, so `surface_never_deadlocks` holds for any number of
threads: no thread waits for itself over a chain of others, and for each that is not through some
thread can go on.

Scope. A branch that depends on the contents is taken one way or the other. Counters are atomic and
take no mutex. The channel of mutation events is not of the surface and is used while no mutex is
held.
-/

set_option autoImplicit false

namespace HydraCache.Client

open Lib

inductive SurfaceMutex where
  | idempotencyKeys
  | isolation
  | store
  | lockService
  | expirySweepCursor
  | audit
  | auditSink
  | cacheNowMsForTests
deriving DecidableEq

namespace SurfaceMutex

/-- A mutex is taken only while mutexes of lower ranks are held. -/
def rank : SurfaceMutex → Fin 6
  | .idempotencyKeys | .expirySweepCursor => 0
  | .isolation => 1
  | .store => 2
  | .lockService => 3
  | .audit | .cacheNowMsForTests => 4
  | .auditSink => 5

/-! ### Parts that calls share -/

/-- A mutex that is taken and given back. -/
def touch (mutex : SurfaceMutex) : Guarded SurfaceMutex :=
  .hold mutex .pass

/-- Something that is done or not. -/
def optional (program : Guarded SurfaceMutex) : Guarded SurfaceMutex :=
  .either .pass program

def nowMs : Guarded SurfaceMutex :=
  touch .cacheNowMsForTests

/-- A sink that is not available is not taken. -/
def recordAudit : Guarded SurfaceMutex :=
  .hold .audit (optional (touch .auditSink))

section

variable (isolated : Bool)

/-- Of an identity that is not of its tenant a failure is recorded. -/
def validateTenantIdentity : Guarded SurfaceMutex :=
  if isolated then .next (touch .isolation) (optional recordAudit) else .pass

section

variable (body : Guarded SurfaceMutex)

/-- The ledger, if there is one, with the values under it. -/
def underLedger : Guarded SurfaceMutex :=
  if isolated then .hold .isolation (.hold .store body) else .hold .store body

/-- Without force the sweep may be left for later. -/
def sweepExpiredEntries (force : Bool) : Guarded SurfaceMutex :=
  let sweep := .hold .expirySweepCursor (underLedger isolated .pass)
  if force then sweep else optional sweep

/-- The values are taken once the request is admitted. -/
def withAdmittedStore : Guarded SurfaceMutex :=
  if isolated then .hold .isolation (optional (.hold .store body)) else .hold .store body

/-- An operation on the entry of a key that is live at the time the clock shows. -/
def onLiveEntry : Guarded SurfaceMutex :=
  .next nowMs (withAdmittedStore isolated .pass)

/-! ### Requests -/

/-- A put that is not too large; one with an idempotency key holds the outcomes to the end. -/
def handlePut (idempotent : Bool) : Guarded SurfaceMutex :=
  optional
    (.next nowMs (if idempotent then .hold .idempotencyKeys (optional (underLedger isolated .pass))
    else underLedger isolated .pass))

def handleConditionalPut : Guarded SurfaceMutex :=
  optional (.next nowMs (underLedger isolated .pass))

/-- The lock service is taken under the values, by the put that the ledger admits or after it let
the request pass. -/
def handleCompareAndSet : Guarded SurfaceMutex :=
  optional (.next nowMs (underLedger isolated
    (if isolated then optional (touch .lockService) else touch .lockService)))

def handleRemoveIfValue : Guarded SurfaceMutex :=
  .next nowMs (withAdmittedStore isolated (touch .lockService))

/-- Nobody but an administrator may; the failure or the change is recorded first. -/
def handleForceUnlock : Guarded SurfaceMutex :=
  .next recordAudit (optional (touch .lockService))

/-- The ledger alone, if there is one. -/
def touchLedger : Guarded SurfaceMutex :=
  if isolated then touch .isolation else .pass

def beginTenantSubscription : Guarded SurfaceMutex :=
  touchLedger isolated

def handle (idempotent : Bool) : ClientRequest → Guarded SurfaceMutex
  | .get .. | .expire .. | .persist .. | .getTtl .. => onLiveEntry isolated
  | .put .. => handlePut isolated idempotent
  | .invalidate .. => withAdmittedStore isolated .pass
  | .batchGet .. | .compareValueAndInvalidate .. | .compareValueAndExpire .. =>
    optional (onLiveEntry isolated)
  | .batchPut .. => optional (withAdmittedStore isolated .pass)
  | .conditionalPut .. => handleConditionalPut isolated
  | .evictRegion .. => withAdmittedStore isolated .pass
  | .subscribeInvalidations .. | .subscribeEntryEvents .. => beginTenantSubscription isolated
  | .tryLock .. | .unlock .. | .renewLockLease .. | .getLockOwnership .. => touch .lockService
  | .forceUnlock .. => handleForceUnlock
  | .compareAndSet .. => handleCompareAndSet isolated
  | .removeIfValue .. => handleRemoveIfValue isolated

/-- A request of a supported version that is in time: the sweep, the request itself, and the record
of a refusal. -/
def handleRequest (envelope : ClientRequestEnvelope) : Guarded SurfaceMutex :=
  optional (.next nowMs (.next (sweepExpiredEntries isolated false)
    (.next (handle isolated envelope.idempotencyKey.isSome envelope.request)
      (optional recordAudit))))

/-! ### Calls -/

/-- What a thread may call. -/
inductive SurfaceCall where
  | dispatchVerifiedRequest (envelope : ClientRequestEnvelope)
  | clientData (envelope : ClientRequestEnvelope)
  | clientStatus
  | clientSubscription
  | subscribeMutations
  | reapExpiredEntriesForMaintenance
  | retainedStateForDiagnostics
  | resetRetainedStateForDiagnostics
  | auditEventsForTests
  | setLockLeaderForTests
  | advanceLockLogicalTimeForTests
  | setCacheTimeForTests
  | advanceCacheTimeForTests

def dispatchVerifiedRequest (envelope : ClientRequestEnvelope) : Guarded SurfaceMutex :=
  .next (validateTenantIdentity isolated) (optional (handleRequest isolated envelope))

/-- The metrics of a tenant are the ledger's. -/
def tenantStatus : Guarded SurfaceMutex :=
  .next (validateTenantIdentity isolated) (optional (touchLedger isolated))

/-- The three parts that diagnostics look at together. -/
def underRetainedState : Guarded SurfaceMutex :=
  .hold .idempotencyKeys (.hold .store (.hold .lockService body))

end

/-- The count of audit events is read while the three parts are held. -/
def retainedStateLocked : Guarded SurfaceMutex :=
  touch .auditSink

def retainedStateForDiagnostics : Guarded SurfaceMutex :=
  .next (.next nowMs (sweepExpiredEntries isolated true)) (underRetainedState retainedStateLocked)

/-- With isolated tenants there is no reset. -/
def resetRetainedStateForDiagnostics : Guarded SurfaceMutex :=
  if isolated then .pass else underRetainedState (.next retainedStateLocked retainedStateLocked)

def program : SurfaceCall → Guarded SurfaceMutex
  | .dispatchVerifiedRequest envelope => dispatchVerifiedRequest isolated envelope
  | .clientData envelope => optional (dispatchVerifiedRequest isolated envelope)
  | .clientStatus => optional (tenantStatus isolated)
  | .clientSubscription => optional (validateTenantIdentity isolated)
  | .subscribeMutations => validateTenantIdentity isolated
  | .reapExpiredEntriesForMaintenance => .next nowMs (sweepExpiredEntries isolated false)
  | .retainedStateForDiagnostics => retainedStateForDiagnostics isolated
  | .resetRetainedStateForDiagnostics => resetRetainedStateForDiagnostics isolated
  | .auditEventsForTests => touch .auditSink
  | .setLockLeaderForTests | .advanceLockLogicalTimeForTests => touch .lockService
  | .setCacheTimeForTests | .advanceCacheTimeForTests => touch .cacheNowMsForTests

end

/-! ### The order of the mutexes -/

/-- Every request takes its mutexes in order. -/
theorem handle_climbs (isolated idempotent : Bool) (request : ClientRequest) :
    (handle isolated idempotent request).Climbs rank [] := by
  cases request <;> simp only [handle] <;> revert isolated idempotent <;> decide

theorem dispatchVerifiedRequest_climbs (isolated : Bool) (envelope : ClientRequestEnvelope) :
    (dispatchVerifiedRequest isolated envelope).Climbs rank [] := by
  have hvalid : ∀ isolated, (validateTenantIdentity isolated).Climbs rank [] := by decide
  have hsweep : ∀ isolated, (sweepExpiredEntries isolated false).Climbs rank [] := by decide
  have hnow : nowMs.Climbs rank [] := by decide
  have haudit : (optional recordAudit).Climbs rank [] := by decide
  exact ⟨hvalid isolated, trivial, trivial, hnow, hsweep isolated, handle_climbs .., haudit⟩

/-- Every call takes its mutexes in order. -/
theorem program_climbs (isolated : Bool) (call : SurfaceCall) :
    (program isolated call).Climbs rank [] := by
  cases call with
  | dispatchVerifiedRequest envelope => exact dispatchVerifiedRequest_climbs isolated envelope
  | clientData envelope => exact ⟨trivial, dispatchVerifiedRequest_climbs ..⟩
  | _ =>
    revert isolated
    decide

/-- Assumes: any threads that have made any calls, on a surface with or without isolated tenants. No
thread waits for itself over a chain of threads that each wait for a mutex of the next; and for a
thread that is not through with its call, it or one that it waits for can go on. -/
theorem surface_never_deadlocks {ι : Type*} [DecidableEq ι] {isolated : Bool}
    {events : List (PoolEvent ι SurfaceCall)} {s : Pool ι SurfaceMutex}
    (hrun : run (Pool.step (program isolated)) Pool.idle events = some s) (thread : ι) :
    ¬ Relation.TransGen s.WaitsFor thread thread ∧
      (s.stack thread ≠ [] → ∃ other, Relation.ReflTransGen s.WaitsFor thread other ∧
        s.CanAdvance (program isolated) other) := by
  have horderly := Pool.orderly_of_run (program_climbs isolated) hrun
  exact ⟨horderly.no_wait_cycle thread, horderly.exists_advance⟩

/-- A sweep has the cursor, the ledger and the values when another thread comes to the ledger. -/
def sweepEvents : List (PoolEvent ℕ SurfaceCall) :=
  .start 0 .reapExpiredEntriesForMaintenance :: List.replicate 8 (.advance 0 true) ++
    [.start 1 .subscribeMutations, .advance 1 true]

theorem surface_never_deadlocks_sweepEvents :
    ∃ s : Pool ℕ SurfaceMutex, run (Pool.step (program true)) Pool.idle sweepEvents = some s ∧
      s.WaitsFor 1 0 ∧ ¬ Relation.TransGen s.WaitsFor 1 1 ∧
      ∃ other, Relation.ReflTransGen s.WaitsFor 1 other ∧ s.CanAdvance (program true) other := by
  refine exists_eq_some (fun s ↦ (s.awaited 1).bind s.owner = some 0 ∧ s.stack 1 ≠ [])
    (by decide +kernel) fun s hrun ⟨hwaits, hstack⟩ ↦ ?_
  obtain ⟨hcycle, hadv⟩ := surface_never_deadlocks hrun 1
  exact ⟨hwaits, hcycle, hadv hstack⟩

end SurfaceMutex

end HydraCache.Client
