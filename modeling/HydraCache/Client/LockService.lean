import HydraCache.Client.Protocol
import HydraCache.Grid.ConditionalVersions

/-!
# The lock service of the client surface

The client surface holds one conditional store for the locks of its clients and for compare-and-set.
Every command on it runs with the store's expired holds removed, at a logical time of its own.

The values of the surface live outside the conditional store, so a conditional write first brings
the record of its key in line with the live value (`syncConditionalRecord`), and is then decided by
the conditional store. `currentValue_syncConditionalRecord` says that this works in every state the
service reaches, and `casAnswer_applyCompareAndSet` that a compare-and-set without an error is
decided by the live value alone.
-/

set_option autoImplicit false

namespace HydraCache.Client

open Lib Grid

/-! ### Commands -/

def lockConsistency : LockConsistency → ConsistencyLevel
  | .one => .one
  | .quorum => .quorum
  | .eachQuorum => .eachQuorum
  | .all => .all

def casResponse : CasResult → ClientResponse
  | .applied newVersion => .casApplied newVersion
  | .mismatch current => .casMismatch current

/-- Every error of the conditional store is a conflict to the client. -/
def lockErrorEnvelope (error : ConditionalError) : ClientErrorEnvelope where
  code := .conflict
  retryable := false
  message := .conditional error

/-- The expectation holds of a live value. -/
def CasExpectation.holds (live : Option SealedBytes) : CasExpectation → Bool
  | .exact expected => decide (live = some expected)
  | .present => live.isSome

structure ClientLockService where
  store : SingleKeyConditionalStore := .new 1 64
  localNodeId : ℕ := 1
  leaderNodeId : ℕ := 1
  logicalNowMs : ℕ := 0
  appliedCommands : ℕ := 0

/-- Bring the record of a key in line with the live value of the surface. -/
def syncConditionalRecord (store : SingleKeyConditionalStore) (key : Key)
    (live : Option SealedBytes) : Except ConditionalError Unit × SingleKeyConditionalStore :=
  if store.currentValue key = live then (.ok (), store)
  else
    match live with
    | some value =>
      let (result, store) := store.compareAndSet key (store.currentValue key) value .quorum
      (result.map fun _ ↦ (), store)
    | none =>
      match store.currentValue key with
      | none => (.ok (), store)
      | some current =>
        let (result, store) := store.removeIfValue key current .quorum
        (result.map fun _ ↦ (), store)

namespace ClientLockService

section

variable (service : ClientLockService)

def isLeader : Bool :=
  decide (service.localNodeId = service.leaderNodeId)

def notLeader (service : ClientLockService) : ClientErrorEnvelope :=
  (ClientErrorEnvelope.new .backendUnavailable true
    s!"not leader for lock partition; leader={service.leaderNodeId}").withRetryAfterMs 1

/-- Run a command at the next logical time, on a store without expired holds. -/
def applyLockCommand (apply : SingleKeyConditionalStore → ℕ →
      Except ConditionalError ClientResponse × SingleKeyConditionalStore) :
    Except ClientErrorEnvelope ClientResponse × ClientLockService :=
  if service.isLeader then
    let now := saturatingSucc service.logicalNowMs
    let (result, store) := apply (service.store.expireDue now).2 now
    (result.mapError lockErrorEnvelope,
      { service with
        store
        logicalNowMs := now
        appliedCommands := saturatingSucc service.appliedCommands })
  else (.error service.notLeader, service)

section

variable (key : Key)

/-- A conditional write, once the record of the key is in line with the live value. -/
def applySynced (live : Option SealedBytes)
    (write : SingleKeyConditionalStore →
      Except ConditionalError CasResult × SingleKeyConditionalStore) :
    Except ClientErrorEnvelope ClientResponse × ClientLockService :=
  service.applyLockCommand fun store _ ↦
    match syncConditionalRecord store key live with
    | (.error error, store) => (.error error, store)
    | (.ok (), store) =>
      let (result, store) := write store
      (result.map casResponse, store)

def applyCompareAndSet (live : Option SealedBytes)
    (expected : CasExpectation) (newValue : SealedBytes) (level : ConsistencyLevel) :
    Except ClientErrorEnvelope ClientResponse × ClientLockService :=
  service.applySynced key live fun store ↦
    match expected with
    | .exact expected => store.compareAndSet key (some expected) newValue level
    | .present => store.replaceIfPresent key newValue level

def applyRemoveIfValue (live : Option SealedBytes) (expected : SealedBytes)
    (level : ConsistencyLevel) :
    Except ClientErrorEnvelope ClientResponse × ClientLockService :=
  service.applySynced key live fun store ↦ store.removeIfValue key expected level

/-! ### Locks -/

def tryLock (owner : LockOwner) (leaseMs : ℕ)
    (level : ConsistencyLevel) : Except ClientErrorEnvelope ClientResponse × ClientLockService :=
  service.applyLockCommand fun store now ↦
    let (acquired, store) := store.tryAcquireLock key level owner (max leaseMs 1) now
    (acquired.map fun fence ↦ fence.elim .lockBusy .lockAcquired, store)

def unlock (owner : LockOwner) (fence : ℕ) :
    Except ClientErrorEnvelope ClientResponse × ClientLockService :=
  service.applyLockCommand fun store _ ↦
    let (released, store) := store.releaseLock key owner fence
    (released.map fun _ ↦ .lockReleased, store)

def renewLock (owner : LockOwner) (fence leaseMs : ℕ) :
    Except ClientErrorEnvelope ClientResponse × ClientLockService :=
  service.applyLockCommand fun store now ↦
    let (renewed, store) := store.renewLease key owner fence (saturatingAdd now (max leaseMs 1))
    (renewed.map fun _ ↦ .lockLeaseRenewed, store)

def forceUnlock : Except ClientErrorEnvelope ClientResponse × ClientLockService :=
  service.applyLockCommand fun store _ ↦ (.ok .lockReleased, (store.forceUnlock key).2)

/-- Who holds a lock; the logical time does not move. -/
def lockOwnership : Except ClientErrorEnvelope ClientResponse × ClientLockService :=
  if service.isLeader then
    let store := (service.store.expireDue service.logicalNowMs).2
    let fence := (store.locks.lookup key).map fun hold ↦ hold.fence
    (.ok (.lockOwnership fence fence.isSome), { service with store })
  else (.error service.notLeader, service)

end

end

end ClientLockService

/-! ### Records that a tombstone can cover -/

open SingleKeyConditionalStore

/-- A store that has reclaimed nothing, with no record above its next version. A tombstone that it
writes covers the record under its key, also when the versions are used up. -/
structure Coverable (s : RecordState) : Prop where
  nextVersion : s.nextVersion ≤ maxWord
  watermarks : s.watermarks = ∅
  records : ∀ key record, s.records.lookup key = some record →
    record.order ≤ toLex (s.nextVersion, s.epoch)

variable {store : SingleKeyConditionalStore} {key : Key} {level : ConsistencyLevel} {met : Bool}

theorem coverable_new (epoch partitionCount : ℕ) :
    Coverable (SingleKeyConditionalStore.new epoch partitionCount).recordState where
  nextVersion := (by decide : 1 ≤ maxWord)
  watermarks := rfl
  records _ _ h := by cases h

/-- Assumes: a coverable store, and another with the next version in which every record is an old
one or not above the version written. -/
theorem Coverable.write {s s' : RecordState} (h : Coverable s) (hepoch : s'.epoch = s.epoch)
    (hmarks : s'.watermarks = s.watermarks) (hnext : s'.nextVersion = saturatingSucc s.nextVersion)
    (hrecs : ∀ key record, s'.records.lookup key = some record →
      s.records.lookup key = some record ∨ record.order ≤ toLex (s.nextVersion, s.epoch)) :
    Coverable s' where
  nextVersion := by
    rw [hnext]
    exact Nat.min_le_right _ _
  watermarks := hmarks.trans h.watermarks
  records key record hrec := by
    have hstep : toLex (s.nextVersion, s.epoch) ≤ toLex (s'.nextVersion, s'.epoch) := by
      rw [hnext, hepoch, Prod.Lex.toLex_le_toLex]
      rcases (le_saturatingSucc h.nextVersion).lt_or_eq with hlt | heq
      · exact .inl hlt
      · exact .inr ⟨heq, le_rfl⟩
    rcases hrecs key record hrec with hold | hnew
    · exact (h.records key record hold).trans hstep
    · exact hnew.trans hstep

/-- The record that an insertion of `written` leaves under a key. -/
theorem lookup_written {records : KeyMap Key ReplicatedValueRecord} {other : Key}
    {written record : ReplicatedValueRecord} {bound : ℕ ×ₗ ℕ} (hwrit : written.order ≤ bound)
    (h : (records.insert key written).lookup other = some record) :
    records.lookup other = some record ∨ record.order ≤ bound := by
  obtain ⟨-, rfl⟩ | h := KeyMap.of_lookup_insert h
  · exact .inr hwrit
  · exact .inl h

theorem coverable_compareAndSet (h : Coverable store.recordState) (key : Key)
    (expected : Option SealedBytes) (newValue : SealedBytes) (level : ConsistencyLevel) :
    Coverable (store.compareAndSet key expected newValue level).2.recordState := by
  unfold compareAndSet
  split
  · exact h
  · split_ifs
    · exact h
    · exact h.write rfl rfl rfl fun _ _ ↦ lookup_written le_rfl

theorem coverable_replaceIfPresent (h : Coverable store.recordState) (key : Key)
    (newValue : SealedBytes) (level : ConsistencyLevel) :
    Coverable (store.replaceIfPresent key newValue level).2.recordState := by
  unfold replaceIfPresent
  split
  · exact h
  · split
    · exact h
    · exact coverable_compareAndSet h ..

theorem currentBytes_of_isTombstone {record : ReplicatedValueRecord}
    (h : record.isTombstone = true) :
    currentBytes record = none := by
  rcases record with ⟨partition, version, epoch, value | tombstone⟩
  · cases h
  · rfl

theorem merge_tombstone {current tombstone : ReplicatedValueRecord}
    (htomb : tombstone.isTombstone = true) (h : current.order ≤ tombstone.order) :
    (current.merge tombstone).isTombstone = true ∧
      (current.merge tombstone).order = tombstone.order := by
  rcases h.lt_or_eq with hlt | heq
  · rw [ReplicatedValueRecord.merge_of_lt hlt]
    exact ⟨htomb, rfl⟩
  · rw [ReplicatedValueRecord.merge_of_eq heq]
    split_ifs with hcur
    · exact ⟨hcur, heq⟩
    · exact ⟨htomb, rfl⟩

section

variable (h : Coverable store.recordState) (key : Key)
include h

/-- The tombstone of the next version takes the place of what is under the key. -/
theorem applyTombstone_coverable :
    (store.applyTombstone key store.nextVersion).currentValue key = none ∧
      Coverable (store.applyTombstone key store.nextVersion).recordState := by
  let tombstone := ReplicatedValueRecord.tombstone (partitionForKey key store.partitionCount)
    store.nextVersion store.epoch none
  have hnext : max store.nextVersion (saturatingSucc store.nextVersion) =
      saturatingSucc store.nextVersion := max_eq_right (le_saturatingSucc h.nextVersion)
  have hmark : store.tombstoneGcWatermarks.lookup tombstone.partition = none := by
    rw [show store.tombstoneGcWatermarks = ∅ from h.watermarks]
    rfl
  change (store.applyReplicatedRecord key tombstone).2.currentValue key = none ∧
    Coverable (store.applyReplicatedRecord key tombstone).2.recordState
  rw [applyReplicatedRecord, if_neg (fun hne ↦ hne rfl), hmark,
    if_neg (by exact Bool.false_ne_true)]
  dsimp only
  split
  · rename_i current hcur
    obtain ⟨hgone, horder⟩ : (current.merge tombstone).isTombstone = true ∧ _ :=
      merge_tombstone rfl (h.records key current hcur)
    split_ifs with hsame
    · rw [hsame] at hgone
      refine ⟨?_, h.write rfl rfl hnext fun _ _ ↦ .inl⟩
      rw [currentValue, hcur]
      exact currentBytes_of_isTombstone hgone
    · refine ⟨?_, h.write rfl rfl hnext fun _ _ ↦ lookup_written horder.le⟩
      rw [currentValue, AList.lookup_insert]
      exact currentBytes_of_isTombstone hgone
  · refine ⟨?_, h.write rfl rfl hnext fun _ _ ↦ lookup_written le_rfl⟩
    rw [currentValue, AList.lookup_insert]
    rfl

theorem coverable_removeIfValue (expected : SealedBytes) (level : ConsistencyLevel) :
    Coverable (store.removeIfValue key expected level).2.recordState := by
  unfold removeIfValue
  split
  · exact h
  · split_ifs
    · exact h
    · exact (applyTombstone_coverable h key).2

/-- The record of the key is in line with the live value. -/
theorem currentValue_syncConditionalRecord (live : Option SealedBytes) :
    (syncConditionalRecord store key live).1 = .ok () ∧
      (syncConditionalRecord store key live).2.currentValue key = live ∧
      Coverable (syncConditionalRecord store key live).2.recordState := by
  unfold syncConditionalRecord
  split_ifs with hcur
  · exact ⟨rfl, hcur, h⟩
  · cases live with
    | some value =>
      have hset : store.compareAndSet key (store.currentValue key) value .quorum =
          casApplied
            { store with
              nextVersion := saturatingSucc store.nextVersion
              records := store.records.insert key
                (.value (partitionForKey key store.partitionCount) store.nextVersion store.epoch
                  value) }
            store.nextVersion := by
        rw [compareAndSet, if_neg (not_not.mpr rfl)]
        rfl
      refine ⟨?_, ?_, coverable_compareAndSet h key _ value .quorum⟩
      · dsimp only
        rw [hset]
        rfl
      · dsimp only
        rw [hset]
        change ((store.records.insert key _).lookup key).bind currentBytes = _
        rw [AList.lookup_insert]
        rfl
    | none =>
      dsimp only
      split
      · exact absurd ‹_› hcur
      · rename_i current hsome
        have hrem : store.removeIfValue key current .quorum =
            (store.applyTombstone key store.nextVersion).casApplied store.nextVersion := by
          rw [removeIfValue, if_neg (not_not.mpr hsome)]
          rfl
        obtain ⟨hgone, hcover⟩ := applyTombstone_coverable h key
        rw [hrem]
        exact ⟨rfl, hgone, hcover⟩

end

namespace ClientLockService

variable {service : ClientLockService}

section

variable (h : Coverable service.store.recordState)
  {apply : SingleKeyConditionalStore → ℕ →
    Except ConditionalError ClientResponse × SingleKeyConditionalStore}
include h

/-- Assumes: a command that keeps the store coverable. -/
theorem coverable_applyLockCommand
    (happly : ∀ store now, Coverable store.recordState →
      Coverable (apply store now).2.recordState) :
    Coverable (service.applyLockCommand apply).2.store.recordState := by
  unfold applyLockCommand
  split_ifs
  · refine happly _ _ ?_
    rwa [expireDue, recordState_expireKeys]
  · exact h

section

variable (key : Key) (live : Option SealedBytes)

theorem coverable_applySynced
    {write : SingleKeyConditionalStore →
      Except ConditionalError CasResult × SingleKeyConditionalStore}
    (hwrite : ∀ store, Coverable store.recordState → Coverable (write store).2.recordState) :
    Coverable (service.applySynced key live write).2.store.recordState := by
  refine coverable_applyLockCommand h fun store now hstore ↦ ?_
  have hsync := currentValue_syncConditionalRecord hstore key live
  split
  · rename_i hres
    rw [hres] at hsync
    exact hsync.2.2
  · rename_i hres
    rw [hres] at hsync
    exact hwrite _ hsync.2.2

theorem coverable_applyCompareAndSet (expected : CasExpectation) (newValue : SealedBytes)
    (level : ConsistencyLevel) :
    Coverable
      (service.applyCompareAndSet key live expected newValue level).2.store.recordState := by
  refine coverable_applySynced h key live fun store hstore ↦ ?_
  cases expected with
  | exact => exact coverable_compareAndSet hstore ..
  | present => exact coverable_replaceIfPresent hstore ..

/-- Assumes: a command on locks, which leaves the records alone. -/
theorem coverable_of_recordState
    (happly : ∀ store now, (apply store now).2.recordState = store.recordState) :
    Coverable (service.applyLockCommand apply).2.store.recordState := by
  refine coverable_applyLockCommand h fun store now hstore ↦ ?_
  rwa [happly]

theorem coverable_lockOwnership : Coverable (service.lockOwnership key).2.store.recordState := by
  unfold lockOwnership
  split_ifs
  · change Coverable (service.store.expireKeys _).2.recordState
    rwa [recordState_expireKeys]
  · exact h

end

end

end ClientLockService

/-! ### The answers of conditional writes -/

/-- The answers of a conditional write on a live value: it applies when its condition is met, and
tells the live value otherwise, or it fails. -/
inductive CasAnswer (met : Bool) (live : Option SealedBytes) :
    Except ClientErrorEnvelope ClientResponse → Prop
  | failed {error : ClientErrorEnvelope} (h : error.code ≠ .tenantQuota) :
    CasAnswer met live (.error error)
  | applied (version : ℕ) (h : met = true) : CasAnswer met live (.ok (.casApplied version))
  | mismatch (h : met = false) : CasAnswer met live (.ok (.casMismatch live))

theorem code_lockErrorEnvelope (error : ConditionalError) :
    (lockErrorEnvelope error).code ≠ .tenantQuota := nofun

section

variable {live expected : Option SealedBytes} {newValue : SealedBytes}

section

variable (hlive : store.currentValue key = live)
include hlive

/-- Assumes: a store whose record of the key is in line with the live value. -/
theorem casAnswer_compareAndSet (hmet : met = decide (live = expected)) :
    CasAnswer met live
      (((store.compareAndSet key expected newValue level).1.map casResponse).mapError
        lockErrorEnvelope) := by
  subst hlive hmet
  unfold compareAndSet
  split
  · exact .failed (code_lockErrorEnvelope _)
  · split_ifs with hne
    · exact .mismatch (decide_eq_false hne)
    · exact .applied _ (decide_eq_true (not_not.mp hne))

theorem casAnswer_replaceIfPresent : CasAnswer live.isSome live
      (((store.replaceIfPresent key newValue level).1.map casResponse).mapError
        lockErrorEnvelope) := by
  unfold replaceIfPresent
  split
  · exact .failed (code_lockErrorEnvelope _)
  · cases live with
    | none =>
      rw [hlive]
      exact .mismatch rfl
    | some =>
      rw [hlive]
      exact casAnswer_compareAndSet hlive (decide_eq_true rfl).symm

theorem casAnswer_removeIfValue {expected : SealedBytes} :
    CasAnswer (decide (live = some expected)) live
      (((store.removeIfValue key expected level).1.map casResponse).mapError
        lockErrorEnvelope) := by
  subst hlive
  unfold removeIfValue
  split
  · exact .failed (code_lockErrorEnvelope _)
  · split_ifs with hne
    · exact .mismatch (decide_eq_false hne)
    · exact .applied _ (decide_eq_true (not_not.mp hne))

end

end

namespace ClientLockService

variable {service : ClientLockService}

section

variable (h : Coverable service.store.recordState)
include h

/-- Assumes: a write that answers so on every store in line with the live value. -/
theorem casAnswer_applySynced {key : Key} {live : Option SealedBytes}
    {write : SingleKeyConditionalStore →
      Except ConditionalError CasResult × SingleKeyConditionalStore}
    (hwrite : ∀ store : SingleKeyConditionalStore, store.currentValue key = live →
      CasAnswer met live (((write store).1.map casResponse).mapError lockErrorEnvelope)) :
    CasAnswer met live (service.applySynced key live write).1 := by
  unfold applySynced applyLockCommand
  split_ifs
  · have hexp : Coverable
        (service.store.expireDue (saturatingSucc service.logicalNowMs)).2.recordState := by
      rwa [expireDue, recordState_expireKeys]
    obtain ⟨hok, hcur, -⟩ := currentValue_syncConditionalRecord hexp key live
    dsimp only
    generalize syncConditionalRecord _ key live = synced at hok hcur ⊢
    rcases synced with ⟨_ | _, store⟩
    · cases hok
    · exact hwrite store hcur
  · exact .failed nofun

theorem casAnswer_applyCompareAndSet (key : Key) (live : Option SealedBytes)
    (expected : CasExpectation) (newValue : SealedBytes) (level : ConsistencyLevel) :
    CasAnswer (expected.holds live) live
      (service.applyCompareAndSet key live expected newValue level).1 := by
  refine casAnswer_applySynced h fun store hlive ↦ ?_
  cases expected with
  | exact => exact casAnswer_compareAndSet hlive rfl
  | present => exact casAnswer_replaceIfPresent hlive

theorem casAnswer_applyRemoveIfValue (key : Key)
    (live : Option SealedBytes) (expected : SealedBytes) (level : ConsistencyLevel) :
    CasAnswer (decide (live = some expected)) live
      (service.applyRemoveIfValue key live expected level).1 :=
  casAnswer_applySynced h fun _ hlive ↦ casAnswer_removeIfValue hlive

end

end ClientLockService

end HydraCache.Client
