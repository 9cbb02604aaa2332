import HydraCache.Grid.Record

/-!
# The conditional store

A single-key conditional store holds versioned records and fenced locks. Conditional writes take the
next version of the store; replicated records and tombstones come with a version of their own and
are merged into what the store holds. A tombstone is reclaimed when every replica has applied the
stream of its partition beyond it; the store then keeps the watermark of the partition, and refuses
records at or below it. A lock is a hold on a key by an owner, with a fence token that grows with
every new hold, a lease, and a count of the times its owner acquired it.

`Op` collects the operations of the store, and `step` runs one. What the runs keep is in
`HydraCache.Grid.ConditionalVersions` for the records and in `HydraCache.Grid.FencedLocks` for the
locks.

Scope. Every operation runs under the store's own exclusive reference, so operations do not overlap.
Texts of errors are left out; their data is here.
-/

set_option autoImplicit false

namespace HydraCache.Grid

open Lib

/-! ### Levels -/

inductive ConsistencyLevel where
  | one
  | localQuorum
  | quorum
  | eachQuorum
  | all
deriving DecidableEq

def ConsistencyLevel.allowsSingleKeyLinearizable : ConsistencyLevel → Bool
  | .quorum | .eachQuorum | .all => true
  | .one | .localQuorum => false

/-! ### Results and errors -/

/-- What a conditional write returns. -/
inductive CasResult where
  | applied (newVersion : ℕ)
  | mismatch (current : Option SealedBytes)
deriving DecidableEq

abbrev FenceToken := ℕ

abbrev SessionId := String

structure LockOwner where
  session : SessionId
  endpoint : ℕ
deriving DecidableEq

inductive ConditionalError where
  | weakConsistency (level : ConsistencyLevel)
  | multiKeyRejected (keyCount : ℕ)
  | staleFenceToken (current : Option FenceToken) (presented : FenceToken)
  | lockNotHeld
  | leaseExpired (key : Key) (current : Option FenceToken)
  | notOwner (key : Key) (currentOwner : Option LockOwner)
  | reentrancyLimit (key : Key) (limit : ℕ)
deriving DecidableEq

structure ConditionalMetrics where
  casAppliedTotal : ℕ := 0
  casMismatchTotal : ℕ := 0
  lockAcquiredTotal : ℕ := 0
  lockStaleTokenRejectedTotal : ℕ := 0
  lockLeaseExpiredTotal : ℕ := 0
  lockNotOwnerRejectedTotal : ℕ := 0
  lockLeaseRenewedTotal : ℕ := 0
  lockReentrancyLimitRejectedTotal : ℕ := 0
  tombstoneGcReclaimedTotal : ℕ := 0
  tombstoneGcStaleRecordRejectedTotal : ℕ := 0
deriving DecidableEq

structure ConditionalRetainedState where
  records : ℕ
  liveRecords : ℕ
  tombstones : ℕ
  locks : ℕ
  sessionHeartbeats : ℕ
  tombstoneGcWatermarks : ℕ
  identityBytes : ℕ
deriving DecidableEq

inductive ReplicatedRecordApply where
  | applied
  | ignoredStale
  | rejectedBelowGcWatermark
deriving DecidableEq

inductive TombstoneGcError where
  | emptyReplicaSet
  | missingReplica (replica : String)
  | unexpectedReplica (replica : String)
  | duplicateReplica (replica : String)
  | progressPartitionMismatch (replica : String) (expected actual : ℕ)
  | progressEpochMismatch (replica : String) (expected actual : ℕ)
  | storeEpochMismatch (expected actual : ℕ)
  | partitionOutOfRange (partition partitionCount : ℕ)
  | watermarkRegression (partition current proposed : ℕ)
  | recordPartitionMismatch (expected actual : ℕ)
deriving DecidableEq

/-! ### Watermarks -/

/-- Every replica has applied the stream of the partition up to `version`. -/
structure TombstoneGcWatermark where
  partition : ℕ
  version : ℕ
  epoch : ℕ
  replicaCount : ℕ
deriving DecidableEq

namespace TombstoneGcWatermark

/-- The (version, epoch) of the watermark. -/
def order (watermark : TombstoneGcWatermark) : ℕ ×ₗ ℕ :=
  toLex (watermark.version, watermark.epoch)

end TombstoneGcWatermark

/-! ### The store -/

structure LockHold where
  owner : LockOwner
  fence : FenceToken
  holds : ℕ
  leaseDeadline : ℕ
deriving DecidableEq

def LockHold.expiredAt (hold : LockHold) (now : ℕ) : Bool := decide (hold.leaseDeadline ≤ now)

structure SingleKeyConditionalStore where
  records : KeyMap Key ReplicatedValueRecord := ∅
  tombstoneGcWatermarks : KeyMap ℕ TombstoneGcWatermark := ∅
  locks : KeyMap Key LockHold := ∅
  sessionHeartbeats : KeyMap SessionId ℕ := ∅
  nextVersion : ℕ := 1
  nextFence : FenceToken := 1
  epoch : ℕ
  partitionCount : ℕ
  metrics : ConditionalMetrics := {}
  lockAcquireLimit : Option ℕ := none

/-- The bytes of a live record. -/
def currentBytes (record : ReplicatedValueRecord) : Option SealedBytes :=
  match record.state with
  | .value value _ => some value
  | .tombstone .. => none

def requireLinearizableLevel (level : ConsistencyLevel) : Except ConditionalError Unit :=
  if level.allowsSingleKeyLinearizable then .ok () else .error (.weakConsistency level)

namespace SingleKeyConditionalStore

/-- An empty store. -/
def new (epoch partitionCount : ℕ) : SingleKeyConditionalStore where
  epoch
  partitionCount := max partitionCount 1

section

variable (s : SingleKeyConditionalStore)

def withLockAcquireLimit (limit : Option ℕ) : SingleKeyConditionalStore :=
  { s with lockAcquireLimit := limit }

section

variable (key : Key)

/-- The live value under a key; a tombstone counts as none. -/
def currentValue : Option SealedBytes :=
  (s.records.lookup key).bind currentBytes

def retainedState : ConditionalRetainedState :=
  let liveRecords := s.records.entries.countP fun entry ↦ !entry.2.isTombstone
  let identityBytes {V : Type} (m : KeyMap String V) := (m.keys.map String.utf8ByteSize).sum
  { records := KeyMap.size s.records
    liveRecords
    tombstones := KeyMap.size s.records - liveRecords
    locks := KeyMap.size s.locks
    sessionHeartbeats := KeyMap.size s.sessionHeartbeats
    tombstoneGcWatermarks := KeyMap.size s.tombstoneGcWatermarks
    identityBytes := identityBytes s.records + identityBytes s.locks +
      identityBytes s.sessionHeartbeats }

/-- Forget everything but the counters, which move on. -/
def clearForDiagnosticReset : ConditionalRetainedState × SingleKeyConditionalStore :=
  (s.retainedState,
    { s with
      records := ∅
      tombstoneGcWatermarks := ∅
      locks := ∅
      sessionHeartbeats := ∅
      nextVersion := saturatingSucc s.nextVersion
      nextFence := saturatingSucc s.nextFence })

/-! ### Records -/

/-- The record stays when the watermark moves: it is not a tombstone of the partition at or below
it. -/
def staysAbove (watermark : TombstoneGcWatermark) (_ : Key) (record : ReplicatedValueRecord) :
    Bool :=
  decide (record.partition ≠ watermark.partition) || !record.isTombstone ||
    decide (watermark.order < record.order)

/-- Move the watermark of a partition and reclaim the tombstones it covers. -/
def advanceTombstoneGcWatermark (watermark : TombstoneGcWatermark) :
    Except TombstoneGcError ℕ × SingleKeyConditionalStore :=
  if watermark.epoch ≠ s.epoch then (.error (.storeEpochMismatch s.epoch watermark.epoch), s)
  else if s.partitionCount ≤ watermark.partition then
    (.error (.partitionOutOfRange watermark.partition s.partitionCount), s)
  else
    match (s.tombstoneGcWatermarks.lookup watermark.partition).filter
        fun current ↦ watermark.version < current.version with
    | some current =>
      (.error (.watermarkRegression watermark.partition current.version watermark.version), s)
    | none =>
      let records := KeyMap.retain (staysAbove watermark) s.records
      let reclaimed := KeyMap.size s.records - KeyMap.size records
      (.ok reclaimed,
        { s with
          nextVersion := max s.nextVersion (saturatingSucc watermark.version)
          tombstoneGcWatermarks := s.tombstoneGcWatermarks.insert watermark.partition watermark
          records
          metrics := { s.metrics with
            tombstoneGcReclaimedTotal :=
              saturatingAdd s.metrics.tombstoneGcReclaimedTotal reclaimed } })

/-- Apply a record of the replication stream. -/
def applyReplicatedRecord (record : ReplicatedValueRecord) :
    Except TombstoneGcError ReplicatedRecordApply × SingleKeyConditionalStore :=
  if record.partition ≠ partitionForKey key s.partitionCount then
    (.error (.recordPartitionMismatch (partitionForKey key s.partitionCount) record.partition), s)
  else if (s.tombstoneGcWatermarks.lookup record.partition).any
      fun watermark ↦ record.order ≤ watermark.order then
    (.ok .rejectedBelowGcWatermark,
      { s with metrics := { s.metrics with
        tombstoneGcStaleRecordRejectedTotal :=
          saturatingSucc s.metrics.tombstoneGcStaleRecordRejectedTotal } })
  else
    let s := { s with nextVersion := max s.nextVersion (saturatingSucc record.version) }
    match s.records.lookup key with
    | some current =>
      let merged := current.merge record
      if merged = current then (.ok .ignoredStale, s)
      else (.ok .applied, { s with records := s.records.insert key merged })
    | none => (.ok .applied, { s with records := s.records.insert key record })

/-- Apply a tombstone of a given version. -/
def applyTombstone (version : ℕ) : SingleKeyConditionalStore :=
  (s.applyReplicatedRecord key
    (.tombstone (partitionForKey key s.partitionCount) version s.epoch none)).2

/-- Count a conditional write that did not match. -/
def casMismatch (current : Option SealedBytes) :
    Except ConditionalError CasResult × SingleKeyConditionalStore :=
  (.ok (.mismatch current),
    { s with metrics := { s.metrics with
      casMismatchTotal := saturatingSucc s.metrics.casMismatchTotal } })

/-- Count a conditional write that matched. -/
def casApplied (version : ℕ) : Except ConditionalError CasResult × SingleKeyConditionalStore :=
  (.ok (.applied version),
    { s with metrics := { s.metrics with
      casAppliedTotal := saturatingSucc s.metrics.casAppliedTotal } })

def compareAndSet (expected : Option SealedBytes) (newValue : SealedBytes)
    (level : ConsistencyLevel) :
    Except ConditionalError CasResult × SingleKeyConditionalStore :=
  match requireLinearizableLevel level with
  | .error error => (.error error, s)
  | .ok () =>
    if s.currentValue key ≠ expected then s.casMismatch (s.currentValue key)
    else
      let version := s.nextVersion
      let record := ReplicatedValueRecord.value (partitionForKey key s.partitionCount) version
        s.epoch newValue
      casApplied
        { s with
          nextVersion := saturatingSucc s.nextVersion
          records := s.records.insert key record } version

/-- Put a value where there is none or a tombstone. -/
def putIfAbsent (value : SealedBytes)
    (level : ConsistencyLevel) : Except ConditionalError CasResult × SingleKeyConditionalStore :=
  s.compareAndSet key none value level

/-- Put a value where there is a live one. -/
def replaceIfPresent (newValue : SealedBytes)
    (level : ConsistencyLevel) : Except ConditionalError CasResult × SingleKeyConditionalStore :=
  match requireLinearizableLevel level with
  | .error error => (.error error, s)
  | .ok () =>
    match s.currentValue key with
    | none => s.casMismatch none
    | some expected => s.compareAndSet key (some expected) newValue level

/-- Put a tombstone over the value expected. -/
def removeIfValue (expected : SealedBytes)
    (level : ConsistencyLevel) : Except ConditionalError CasResult × SingleKeyConditionalStore :=
  match requireLinearizableLevel level with
  | .error error => (.error error, s)
  | .ok () =>
    if s.currentValue key ≠ some expected then s.casMismatch (s.currentValue key)
    else (s.applyTombstone key s.nextVersion).casApplied s.nextVersion

/-! ### Locks -/

def isLockedBy (owner : LockOwner) : Bool :=
  (s.locks.lookup key).any fun hold ↦ hold.owner = owner

def recordSessionHeartbeat (session : SessionId) (now : ℕ) : SingleKeyConditionalStore :=
  { s with sessionHeartbeats := s.sessionHeartbeats.insert session now }

/-- Forget the heartbeat of a session that holds no lock. -/
def removeHeartbeatIfUnused (session : SessionId) : SingleKeyConditionalStore :=
  if s.locks.entries.any fun entry ↦ entry.2.owner.session = session then s
  else { s with sessionHeartbeats := s.sessionHeartbeats.erase session }

/-- Put a new hold under a key, with the next fence token, in the place of one whose session is
`replaced`. -/
def installHold (owner : LockOwner) (lease now : ℕ)
    (replaced : Option SessionId) : FenceToken × SingleKeyConditionalStore :=
  let token := s.nextFence
  let s := { s with nextFence := saturatingSucc s.nextFence }
  let s := s.recordSessionHeartbeat owner.session now
  let s := { s with
    locks := s.locks.insert key
      { owner, fence := token, holds := 1, leaseDeadline := saturatingAdd now lease } }
  let s := match replaced with
    | some session => if session ≠ owner.session then s.removeHeartbeatIfUnused session else s
    | none => s
  (token,
    { s with metrics := { s.metrics with
      lockAcquiredTotal := saturatingSucc s.metrics.lockAcquiredTotal } })

/-- Acquire a lock that is free, expired or the owner's own; the last keeps its token. -/
def tryAcquireLock (level : ConsistencyLevel) (owner : LockOwner) (lease now : ℕ) :
    Except ConditionalError (Option FenceToken) × SingleKeyConditionalStore :=
  match requireLinearizableLevel level with
  | .error error => (.error error, s)
  | .ok () =>
    match s.locks.lookup key with
    | none =>
      let acquired := s.installHold key owner lease now none
      (.ok (some acquired.1), acquired.2)
    | some hold =>
      if hold.expiredAt now then
        let s := { s with metrics := { s.metrics with
          lockLeaseExpiredTotal := saturatingSucc s.metrics.lockLeaseExpiredTotal } }
        let acquired := s.installHold key owner lease now (some hold.owner.session)
        (.ok (some acquired.1), acquired.2)
      else if s.isLockedBy key owner then
        let nextHolds := min (hold.holds + 1) maxHalfWord
        match s.lockAcquireLimit.filter fun limit ↦ limit < nextHolds with
        | some limit =>
          (.error (.reentrancyLimit key limit),
            { s with metrics := { s.metrics with
              lockReentrancyLimitRejectedTotal :=
                saturatingSucc s.metrics.lockReentrancyLimitRejectedTotal } })
        | none =>
          let s := { s with
            locks := s.locks.insert key
              { hold with
                holds := nextHolds
                leaseDeadline := max hold.leaseDeadline (saturatingAdd now lease) } }
          let s := s.recordSessionHeartbeat owner.session now
          (.ok (some hold.fence),
            { s with metrics := { s.metrics with
              lockAcquiredTotal := saturatingSucc s.metrics.lockAcquiredTotal } })
      else (.ok none, s)

/-- Acquire a lock whoever holds it. -/
def forceAcquireLock (level : ConsistencyLevel) (owner : LockOwner) (lease now : ℕ) :
    Except ConditionalError FenceToken × SingleKeyConditionalStore :=
  match requireLinearizableLevel level with
  | .error error => (.error error, s)
  | .ok () =>
    let acquired := s.installHold key owner lease now
      ((s.locks.lookup key).map fun hold ↦ hold.owner.session)
    (.ok acquired.1, acquired.2)

/-- Count a token that is not current. -/
def rejectStaleToken (error : ConditionalError) :
    Except ConditionalError Unit × SingleKeyConditionalStore :=
  (.error error,
    { s with metrics := { s.metrics with
      lockStaleTokenRejectedTotal := saturatingSucc s.metrics.lockStaleTokenRejectedTotal } })

/-- Count a caller that is not the owner. -/
def rejectNotOwner (hold : LockHold) : Except ConditionalError Unit × SingleKeyConditionalStore :=
  (.error (.notOwner key (some hold.owner)),
    { s with metrics := { s.metrics with
      lockNotOwnerRejectedTotal := saturatingSucc s.metrics.lockNotOwnerRejectedTotal } })

def renewLease (owner : LockOwner) (token : FenceToken) (newDeadline : ℕ) :
    Except ConditionalError Unit × SingleKeyConditionalStore :=
  match s.locks.lookup key with
  | none => s.rejectStaleToken (.leaseExpired key none)
  | some hold =>
    if hold.owner ≠ owner then s.rejectNotOwner key hold
    else if hold.fence ≠ token then
      s.rejectStaleToken (.staleFenceToken (some hold.fence) token)
    else
      let s := { s with
        locks := s.locks.insert key { hold with leaseDeadline := newDeadline } }
      let s := s.recordSessionHeartbeat owner.session newDeadline
      (.ok (),
        { s with metrics := { s.metrics with
          lockLeaseRenewedTotal := saturatingSucc s.metrics.lockLeaseRenewedTotal } })

end

end

/-- Remove one hold and move the fence on; the session of the hold. -/
def expireKey (expired : List SessionId × SingleKeyConditionalStore) (key : Key) :
    List SessionId × SingleKeyConditionalStore :=
  let s := expired.2
  match s.locks.lookup key with
  | none => expired
  | some hold =>
    (expired.1 ++ [hold.owner.session],
      { s with
        locks := s.locks.erase key
        nextFence := saturatingSucc s.nextFence
        metrics := { s.metrics with
          lockLeaseExpiredTotal := saturatingSucc s.metrics.lockLeaseExpiredTotal } })

section

variable (s : SingleKeyConditionalStore)

/-- Remove the holds under some keys. -/
def expireKeys (keys : List Key) : ℕ × SingleKeyConditionalStore :=
  let expired := keys.foldl expireKey ([], s)
  (expired.1.length, expired.1.foldl removeHeartbeatIfUnused expired.2)

/-- The keys whose hold satisfies `gone`. -/
def keysOfHolds (gone : LockHold → Bool) : List Key :=
  (s.locks.entries.filter fun entry ↦ gone entry.2).map fun entry ↦ entry.1

def expireDue (now : ℕ) : ℕ × SingleKeyConditionalStore :=
  s.expireKeys (s.keysOfHolds fun hold ↦ hold.expiredAt now)

/-- The sessions not heard of for longer than `maxSilence`. -/
def lostSessions (now maxSilence : ℕ) : List SessionId :=
  (s.sessionHeartbeats.entries.filter fun entry ↦ maxSilence < now - entry.2).map
    fun entry ↦ entry.1

def expireLostSessions (now maxSilence : ℕ) : ℕ × SingleKeyConditionalStore :=
  let lost := s.lostSessions now maxSilence
  let expired := s.expireKeys (s.keysOfHolds fun hold ↦ hold.owner.session ∈ lost)
  let heard := lost.foldl (fun heard session ↦ heard.erase session) expired.2.sessionHeartbeats
  (expired.1, { expired.2 with sessionHeartbeats := heard })

/-- Release a lock once; the last release removes the hold. -/
def releaseLock (key : Key) (owner : LockOwner)
    (token : FenceToken) : Except ConditionalError Unit × SingleKeyConditionalStore :=
  match s.locks.lookup key with
  | none => s.rejectStaleToken (.staleFenceToken none token)
  | some hold =>
    if hold.owner ≠ owner then s.rejectNotOwner key hold
    else if hold.fence ≠ token then
      s.rejectStaleToken (.staleFenceToken (some hold.fence) token)
    else if 1 < hold.holds then
      (.ok (), { s with locks := s.locks.insert key { hold with holds := hold.holds - 1 } })
    else
      (.ok (), removeHeartbeatIfUnused { s with locks := s.locks.erase key } hold.owner.session)

/-- Remove a hold whoever has it, and consume a fence token. -/
def forceUnlock (key : Key) : Option FenceToken × SingleKeyConditionalStore :=
  match s.locks.lookup key with
  | none => (none, s)
  | some hold =>
    let s := removeHeartbeatIfUnused { s with locks := s.locks.erase key } hold.owner.session
    (some s.nextFence, { s with nextFence := saturatingSucc s.nextFence })

def validateFenceToken (key : Key) (token : FenceToken) :
    Except ConditionalError Unit × SingleKeyConditionalStore :=
  let current := (s.locks.lookup key).map fun hold ↦ hold.fence
  if current = some token then (.ok (), s)
  else s.rejectStaleToken (.staleFenceToken current token)

end

end SingleKeyConditionalStore

/-! ### Runs -/

/-- The operations of the store. -/
inductive Op where
  | advanceTombstoneGcWatermark (watermark : TombstoneGcWatermark)
  | applyReplicatedRecord (key : Key) (record : ReplicatedValueRecord)
  | applyTombstone (key : Key) (version : ℕ)
  | compareAndSet (key : Key) (expected : Option SealedBytes) (newValue : SealedBytes)
      (level : ConsistencyLevel)
  | putIfAbsent (key : Key) (value : SealedBytes) (level : ConsistencyLevel)
  | replaceIfPresent (key : Key) (newValue : SealedBytes) (level : ConsistencyLevel)
  | removeIfValue (key : Key) (expected : SealedBytes) (level : ConsistencyLevel)
  | tryAcquireLock (key : Key) (level : ConsistencyLevel) (owner : LockOwner) (lease now : ℕ)
  | forceAcquireLock (key : Key) (level : ConsistencyLevel) (owner : LockOwner) (lease now : ℕ)
  | renewLease (key : Key) (owner : LockOwner) (token : FenceToken) (newDeadline : ℕ)
  | recordSessionHeartbeat (session : SessionId) (now : ℕ)
  | expireDue (now : ℕ)
  | expireLostSessions (now maxSilence : ℕ)
  | releaseLock (key : Key) (owner : LockOwner) (token : FenceToken)
  | forceUnlock (key : Key)
  | validateFenceToken (key : Key) (token : FenceToken)
  | clearForDiagnosticReset

/-- The operation is about records. -/
def Op.onRecords : Op → Bool
  | advanceTombstoneGcWatermark .. | applyReplicatedRecord .. | applyTombstone .. | compareAndSet ..
  | putIfAbsent .. | replaceIfPresent .. | removeIfValue .. => true
  | _ => false

namespace SingleKeyConditionalStore

/-- The store after an operation. -/
def apply (s : SingleKeyConditionalStore) : Op → SingleKeyConditionalStore
  | .advanceTombstoneGcWatermark watermark => (s.advanceTombstoneGcWatermark watermark).2
  | .applyReplicatedRecord key record => (s.applyReplicatedRecord key record).2
  | .applyTombstone key version => s.applyTombstone key version
  | .compareAndSet key expected newValue level => (s.compareAndSet key expected newValue level).2
  | .putIfAbsent key value level => (s.putIfAbsent key value level).2
  | .replaceIfPresent key newValue level => (s.replaceIfPresent key newValue level).2
  | .removeIfValue key expected level => (s.removeIfValue key expected level).2
  | .tryAcquireLock key level owner lease now => (s.tryAcquireLock key level owner lease now).2
  | .forceAcquireLock key level owner lease now => (s.forceAcquireLock key level owner lease now).2
  | .renewLease key owner token newDeadline => (s.renewLease key owner token newDeadline).2
  | .recordSessionHeartbeat session now => s.recordSessionHeartbeat session now
  | .expireDue now => (s.expireDue now).2
  | .expireLostSessions now maxSilence => (s.expireLostSessions now maxSilence).2
  | .releaseLock key owner token => (s.releaseLock key owner token).2
  | .forceUnlock key => (s.forceUnlock key).2
  | .validateFenceToken key token => (s.validateFenceToken key token).2
  | .clearForDiagnosticReset => s.clearForDiagnosticReset.2

/-- One step of a run. -/
def step (s : SingleKeyConditionalStore) (op : Op) : Option SingleKeyConditionalStore :=
  some (s.apply op)

end SingleKeyConditionalStore

end HydraCache.Grid
