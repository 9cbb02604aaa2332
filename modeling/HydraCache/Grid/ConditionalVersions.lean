import HydraCache.Grid.ConditionalStore
import HydraCache.Lib.Run

/-!
# Versions of the conditional store

Two results about all runs of the store, with versions below the top of their counter.

`nextVersion_exceeds`: the next version is above that of every record stored and every watermark, so
the versions that conditional writes return grow over the run, and each write wins the merge against
the record it replaced.

`live_above_tombstone`: once a tombstone of a key has been stored, every live value stored for the
key later is above it in (version, epoch), also after the tombstone has been reclaimed. Until then
the record of the key ranks at least as high as the tombstone, and afterwards the watermark of its
partition does (`Covered`).

Both rest on `recordStep_of_apply`, which says what an operation can do to records, watermarks and
the next version.
-/

set_option autoImplicit false

namespace HydraCache.Grid.SingleKeyConditionalStore

open Lib KeyMap ReplicatedValueRecord

/-! ### The part of the store that locks leave alone -/

/-- The fields that operations on records read and write. -/
structure RecordState where
  records : KeyMap Key ReplicatedValueRecord
  watermarks : KeyMap ℕ TombstoneGcWatermark
  nextVersion : ℕ
  epoch : ℕ
  partitionCount : ℕ

def recordState (s : SingleKeyConditionalStore) : RecordState :=
  ⟨s.records, s.tombstoneGcWatermarks, s.nextVersion, s.epoch, s.partitionCount⟩

variable {s s' : SingleKeyConditionalStore} {op : Op} {partition : ℕ} {ops : List Op}

section

variable (s : SingleKeyConditionalStore)

@[simp] theorem recordState_removeHeartbeatIfUnused (session : SessionId) :
    (s.removeHeartbeatIfUnused session).recordState = s.recordState := by
  unfold removeHeartbeatIfUnused
  split_ifs <;> rfl

@[simp] theorem recordState_installHold (key : Key) (owner : LockOwner) (lease now : ℕ)
    (replaced : Option SessionId) :
    (s.installHold key owner lease now replaced).2.recordState = s.recordState := by
  unfold installHold
  dsimp only
  split
  · split_ifs
    · exact recordState_removeHeartbeatIfUnused ..
    · rfl
  · rfl

theorem recordState_expireKeys (keys : List Key) :
    (s.expireKeys keys).2.recordState = s.recordState := by
  have hkey (expired : List SessionId × SingleKeyConditionalStore) (key : Key) :
      (expireKey expired key).2.recordState = expired.2.recordState := by
    unfold expireKey
    dsimp only
    split <;> rfl
  have hkeys : (keys.foldl expireKey ([], s)).2.recordState = s.recordState :=
    List.foldlRecOn (motive := fun expired ↦ expired.2.recordState = s.recordState) keys _ rfl
      fun expired h key _ ↦ (hkey expired key).trans h
  exact List.foldlRecOn (motive := fun other ↦ other.recordState = s.recordState) _ _ hkeys
    fun other h session _ ↦ (recordState_removeHeartbeatIfUnused other session).trans h

/-- An operation on locks leaves the records as they were. -/
theorem recordState_apply (op : Op) (h : op.onRecords = false)
    (hclear : op ≠ .clearForDiagnosticReset) : (s.apply op).recordState = s.recordState := by
  fun_cases apply with
  | case8 =>
    fun_cases tryAcquireLock <;> dsimp +zetaDelta only
    all_goals first | rfl | exact recordState_installHold ..
  | case9 => fun_cases forceAcquireLock <;> first | rfl | exact recordState_installHold ..
  | case10 => fun_cases renewLease <;> rfl
  | case11 => rfl
  | case12 | case13 => exact recordState_expireKeys s _
  | case14 => fun_cases releaseLock <;> first | rfl | exact recordState_removeHeartbeatIfUnused ..
  | case15 => fun_cases forceUnlock <;> first | rfl | exact recordState_removeHeartbeatIfUnused ..
  | case16 => fun_cases validateFenceToken <;> rfl
  | case17 => exact absurd rfl hclear
  | _ => cases h

end

/-! ### The invariant -/

/-- The next version is above every version in the store. -/
structure VersionsBelow (s : SingleKeyConditionalStore) : Prop where
  nextVersion : s.nextVersion ≤ maxWord
  records : ∀ key record, s.records.lookup key = some record →
    record.version < s.nextVersion ∧ record.partition = partitionForKey key s.partitionCount
  watermarks : ∀ partition watermark, s.tombstoneGcWatermarks.lookup partition = some watermark →
    watermark.version < s.nextVersion ∧ watermark.epoch = s.epoch

/-- The versions that the operation brings or assigns are below the top of their counter. -/
def BelowMax (s : SingleKeyConditionalStore) : Op → Prop
  | .advanceTombstoneGcWatermark watermark => watermark.version < maxWord
  | .applyReplicatedRecord _ record => record.version < maxWord
  | .applyTombstone _ version => version < maxWord
  | .compareAndSet .. | .putIfAbsent .. | .replaceIfPresent .. | .removeIfValue .. =>
    s.nextVersion < maxWord
  | _ => True

section

variable (s : SingleKeyConditionalStore) (op : Op) (s' : SingleKeyConditionalStore)

/-- What an operation does to records and watermarks. -/
inductive RecordChange : Prop where
  | keep (hrecords : s'.records = s.records)
      (hwatermarks : s'.tombstoneGcWatermarks = s.tombstoneGcWatermarks)
  /-- A record is stored that wins against the one it replaces and is above the watermark. -/
  | store (key : Key) (record : ReplicatedValueRecord)
      (hrecords : s'.records = s.records.insert key record)
      (hwatermarks : s'.tombstoneGcWatermarks = s.tombstoneGcWatermarks)
      (hpartition : record.partition = partitionForKey key s.partitionCount)
      (hversion : record.version < s'.nextVersion)
      (hwins : ∀ current, s.records.lookup key = some current → current.rank ≤ record.rank)
      (habove : ∀ watermark, s.tombstoneGcWatermarks.lookup record.partition = some watermark →
        watermark.order < record.order)
  /-- A watermark moves up, and the tombstones it covers are reclaimed. -/
  | reclaim (watermark : TombstoneGcWatermark)
      (hrecords : s'.records = KeyMap.retain (staysAbove watermark) s.records)
      (hwatermarks : s'.tombstoneGcWatermarks =
        s.tombstoneGcWatermarks.insert watermark.partition watermark)
      (hepoch : watermark.epoch = s.epoch)
      (hversion : watermark.version < s'.nextVersion)
      (hmono : ∀ current, s.tombstoneGcWatermarks.lookup watermark.partition = some current →
        current.version ≤ watermark.version)
  | reset (hop : op = .clearForDiagnosticReset) (hrecords : s'.records = ∅)
      (hwatermarks : s'.tombstoneGcWatermarks = ∅)

structure RecordStep : Prop where
  epoch : s'.epoch = s.epoch
  partitionCount : s'.partitionCount = s.partitionCount
  nextVersion : s.nextVersion ≤ s'.nextVersion
  nextVersion_le : s'.nextVersion ≤ maxWord
  change : RecordChange s op s'

end

section

variable (h : VersionsBelow s)
include h

theorem RecordStep.of_recordState_eq (heq : s'.recordState = s.recordState) :
    RecordStep s op s' where
  epoch := congrArg RecordState.epoch heq
  partitionCount := congrArg RecordState.partitionCount heq
  nextVersion := (congrArg RecordState.nextVersion heq).ge
  nextVersion_le := (congrArg RecordState.nextVersion heq).trans_le h.nextVersion
  change := .keep (congrArg RecordState.records heq) (congrArg RecordState.watermarks heq)

/-- A step keeps the next version above the versions in the store. -/
theorem VersionsBelow.recordStep (hstep : RecordStep s op s') : VersionsBelow s' := by
  obtain ⟨hepoch, hparts, hnext, hmax, hchg⟩ := hstep
  have hold {key : Key} {record : ReplicatedValueRecord}
    (hrec : s.records.lookup key = some record) :
      record.version < s'.nextVersion ∧
        record.partition = partitionForKey key s'.partitionCount := by
    obtain ⟨hver, hpart⟩ := h.records key record hrec
    rw [hparts]
    exact ⟨hver.trans_le hnext, hpart⟩
  have holdWatermark {partition : ℕ} {watermark : TombstoneGcWatermark}
      (hmark : s.tombstoneGcWatermarks.lookup partition = some watermark) :
      watermark.version < s'.nextVersion ∧ watermark.epoch = s'.epoch := by
    obtain ⟨hver, hwepoch⟩ := h.watermarks partition watermark hmark
    rw [hepoch]
    exact ⟨hver.trans_le hnext, hwepoch⟩
  refine ⟨hmax, fun key record hrec ↦ ?_, fun partition watermark hmark ↦ ?_⟩
  · cases hchg with
    | keep hrecs =>
      rw [hrecs] at hrec
      exact hold hrec
    | store _ _ hrecs _ hpart hver =>
      rw [hrecs] at hrec
      obtain ⟨rfl, rfl⟩ | hrec := of_lookup_insert hrec
      · rw [hparts]
        exact ⟨hver, hpart⟩
      · exact hold hrec
    | reclaim _ hrecs =>
      rw [hrecs, lookup_retain] at hrec
      exact hold (Option.filter_eq_some_iff.mp hrec).1
    | reset _ hrecs => simp [hrecs] at hrec
  · cases hchg with
    | keep hrecs hmarks
    | store name stored hrecs hmarks hpart hver hwins habove =>
      rw [hmarks] at hmark
      exact holdWatermark hmark
    | reclaim _ _ hmarks hwepoch hver =>
      rw [hmarks] at hmark
      obtain ⟨-, rfl⟩ | hmark := of_lookup_insert hmark
      · exact ⟨hver, hwepoch.trans hepoch.symm⟩
      · exact holdWatermark hmark
    | reset _ _ hmarks => simp [hmarks] at hmark

/-! ### What the operations on records do -/

variable {key : Key} {record : ReplicatedValueRecord} {watermark : TombstoneGcWatermark}

/-- A record of the next version is above everything in the store. -/
theorem VersionsBelow.rank_lt {current : ReplicatedValueRecord}
    (hcur : s.records.lookup key = some current) (hver : s.nextVersion ≤ record.version) :
    current.rank < record.rank :=
  rank_lt_iff.mpr <| .inl <| Prod.Lex.toLex_lt_toLex.mpr <|
    .inl ((h.records key current hcur).1.trans_le hver)

theorem VersionsBelow.order_lt (hmark : s.tombstoneGcWatermarks.lookup partition = some watermark)
    (hver : s.nextVersion ≤ record.version) : watermark.order < record.order :=
  Prod.Lex.toLex_lt_toLex.mpr <| .inl ((h.watermarks partition watermark hmark).1.trans_le hver)

theorem recordStep_advanceTombstoneGcWatermark (hmax : watermark.version < maxWord) :
    RecordStep s op (s.advanceTombstoneGcWatermark watermark).2 := by
  unfold advanceTombstoneGcWatermark
  split_ifs with hepoch hpart
  · exact .of_recordState_eq h rfl
  · exact .of_recordState_eq h rfl
  · split
    · exact .of_recordState_eq h rfl
    · rename_i hnone
      rw [Option.filter_eq_none_iff] at hnone
      refine ⟨rfl, rfl, le_max_left _ _, max_le h.nextVersion (min_le_right _ _), ?_⟩
      refine .reclaim watermark rfl rfl (not_not.mp hepoch) ?_ fun current hcur ↦ ?_
      · exact (lt_saturatingSucc hmax).trans_le (le_max_right _ _)
      · simpa using hnone current hcur

theorem recordStep_applyReplicatedRecord (key : Key) (hmax : record.version < maxWord) :
    RecordStep s op (s.applyReplicatedRecord key record).2 := by
  have hver : record.version < max s.nextVersion (saturatingSucc record.version) :=
    (lt_saturatingSucc hmax).trans_le (le_max_right _ _)
  have hcnt : max s.nextVersion (saturatingSucc record.version) ≤ maxWord :=
    max_le h.nextVersion (min_le_right _ _)
  unfold applyReplicatedRecord
  split_ifs with hpart hbelow
  · exact .of_recordState_eq h rfl
  · exact .of_recordState_eq h rfl
  · rw [not_not] at hpart
    have habove : ∀ watermark, s.tombstoneGcWatermarks.lookup record.partition = some watermark →
        watermark.order < record.order := by
      intro watermark hmark
      rw [hmark] at hbelow
      simpa using hbelow
    dsimp only
    split
    · rename_i current hcur
      split_ifs with hstale
      · exact ⟨rfl, rfl, le_max_left _ _, hcnt, .keep rfl rfl⟩
      · -- the merge took the record, so it ranks at least as high
        have htaken : current.merge record = record :=
          (selectsBy_merge.either ..).resolve_left hstale
        refine ⟨rfl, rfl, le_max_left _ _, hcnt, ?_⟩
        refine .store key record (by rw [htaken]) rfl hpart hver (fun other hother ↦ ?_) habove
        rw [show s.records.lookup key = some current from hcur] at hother
        cases hother
        have hrank := (selectsBy_merge.le_rank current record).1
        rwa [htaken] at hrank
    · rename_i hnone
      refine ⟨rfl, rfl, le_max_left _ _, hcnt, ?_⟩
      refine .store key record rfl rfl hpart hver (fun other hother ↦ ?_) habove
      simp [show s.records.lookup key = none from hnone] at hother

/-! ### What a conditional write does -/

/-- The version a conditional write returns. -/
def casVersion : Except ConditionalError CasResult → Option ℕ
  | .ok (.applied newVersion) => some newVersion
  | .ok (.mismatch _) | .error _ => none

section

variable (s : SingleKeyConditionalStore) (key : Key)

/-- A conditional write of `key` is refused and leaves the records alone, or stores a record with
the next version and returns that. -/
inductive ConditionalWrite
    (result : Except ConditionalError CasResult × SingleKeyConditionalStore) : Prop where
  | refused (hresult : casVersion result.1 = none) (hstate : result.2.recordState = s.recordState)
  | written (record : ReplicatedValueRecord) (hresult : casVersion result.1 = some s.nextVersion)
      (hstate : result.2.recordState =
        { s.recordState with
          records := s.records.insert key record
          nextVersion := saturatingSucc s.nextVersion })
      (hversion : record.version = s.nextVersion)
      (hpartition : record.partition = partitionForKey key s.partitionCount)

omit h in
theorem conditionalWrite_compareAndSet (expected : Option SealedBytes) (newValue : SealedBytes)
    (level : ConsistencyLevel) :
    ConditionalWrite s key (s.compareAndSet key expected newValue level) := by
  unfold compareAndSet
  split
  · exact .refused rfl rfl
  · split_ifs
    · exact .refused rfl rfl
    · exact .written _ rfl rfl rfl rfl

omit h in
theorem conditionalWrite_replaceIfPresent (newValue : SealedBytes) (level : ConsistencyLevel) :
    ConditionalWrite s key (s.replaceIfPresent key newValue level) := by
  unfold replaceIfPresent
  split
  · exact .refused rfl rfl
  · split
    · exact .refused rfl rfl
    · exact conditionalWrite_compareAndSet ..

end

/-- A record of the next version or one above it is stored, whatever is there. -/
theorem recordState_applyReplicatedRecord
    (hpart : record.partition = partitionForKey key s.partitionCount)
    (hver : s.nextVersion ≤ record.version) :
    (s.applyReplicatedRecord key record).2.recordState =
      { s.recordState with
        records := s.records.insert key record
        nextVersion := max s.nextVersion (saturatingSucc record.version) } := by
  unfold applyReplicatedRecord
  split_ifs with hother hbelow
  · exact (hother hpart).elim
  · cases hmark : s.tombstoneGcWatermarks.lookup record.partition with
    | none => simp [hmark] at hbelow
    | some =>
      rw [hmark] at hbelow
      exact absurd (of_decide_eq_true hbelow) (h.order_lt hmark hver).not_ge
  · dsimp only
    split
    · rename_i current hcur
      have hlt := h.rank_lt hcur hver
      rw [selectsBy_merge.right hlt, if_neg]
      · rfl
      · rintro rfl
        exact hlt.false
    · rfl

theorem conditionalWrite_removeIfValue (key : Key) (expected : SealedBytes)
    (level : ConsistencyLevel) :
    ConditionalWrite s key (s.removeIfValue key expected level) := by
  have hnext : max s.nextVersion (saturatingSucc s.nextVersion) = saturatingSucc s.nextVersion :=
    max_eq_right (le_saturatingSucc h.nextVersion)
  unfold removeIfValue
  split
  · exact .refused rfl rfl
  · split_ifs
    · exact .refused rfl rfl
    · let record := tombstone (partitionForKey key s.partitionCount) s.nextVersion s.epoch none
      have hstate : (s.applyReplicatedRecord key record).2.recordState = _ :=
        recordState_applyReplicatedRecord h rfl le_rfl
      refine .written record rfl ?_ rfl rfl
      rwa [← hnext]

/-- Assumes: the next version is below its top. A conditional write is a step of the records. -/
theorem ConditionalWrite.recordStep
    {result : Except ConditionalError CasResult × SingleKeyConditionalStore}
    (hwrite : ConditionalWrite s key result) (hmax : s.nextVersion < maxWord) :
    RecordStep s op result.2 := by
  cases hwrite with
  | refused _ hstate => exact .of_recordState_eq h hstate
  | written record _ hstate hver hpart =>
    have hnext : result.2.nextVersion = saturatingSucc s.nextVersion :=
      congrArg RecordState.nextVersion hstate
    refine ⟨congrArg RecordState.epoch hstate, congrArg RecordState.partitionCount hstate, ?_, ?_,
      .store key record (congrArg RecordState.records hstate)
        (congrArg RecordState.watermarks hstate) hpart ?_ ?_ ?_⟩
    · rw [hnext]
      exact le_saturatingSucc h.nextVersion
    · rw [hnext]
      exact min_le_right _ _
    · rw [hnext, hver]
      exact lt_saturatingSucc hmax
    · exact fun current hcur ↦ (h.rank_lt hcur hver.ge).le
    · exact fun watermark hmark ↦ h.order_lt hmark hver.ge

/-- The key of a conditional write. -/
def conditionalKey : Op → Option Key
  | .compareAndSet key .. | .putIfAbsent key .. | .replaceIfPresent key ..
  | .removeIfValue key .. => some key
  | _ => none

/-- The version an operation returns, if it is a conditional write that is applied. -/
def returnedVersion (s : SingleKeyConditionalStore) : Op → Option ℕ
  | .compareAndSet key expected newValue level =>
    casVersion (s.compareAndSet key expected newValue level).1
  | .putIfAbsent key value level => casVersion (s.putIfAbsent key value level).1
  | .replaceIfPresent key newValue level => casVersion (s.replaceIfPresent key newValue level).1
  | .removeIfValue key expected level => casVersion (s.removeIfValue key expected level).1
  | _ => none

theorem conditionalWrite_of_key (hkey : conditionalKey op = some key) :
    ∃ result, ConditionalWrite s key (result, s.apply op) ∧
      s.returnedVersion op = casVersion result ∧ (BelowMax s op ↔ s.nextVersion < maxWord) := by
  cases op with
  | compareAndSet =>
    cases hkey
    exact ⟨_, conditionalWrite_compareAndSet .., rfl, Iff.rfl⟩
  | putIfAbsent =>
    cases hkey
    exact ⟨_, conditionalWrite_compareAndSet .., rfl, Iff.rfl⟩
  | replaceIfPresent =>
    cases hkey
    exact ⟨_, conditionalWrite_replaceIfPresent .., rfl, Iff.rfl⟩
  | removeIfValue =>
    cases hkey
    exact ⟨_, conditionalWrite_removeIfValue h .., rfl, Iff.rfl⟩
  | _ => cases hkey

/-- Assumes: the versions the operation brings or assigns are below the top. -/
theorem recordStep_of_apply (hmax : BelowMax s op) : RecordStep s op (s.apply op) := by
  have hwrit (key : Key) (hkey : conditionalKey op = some key) : RecordStep s op (s.apply op) := by
    obtain ⟨_, hwrite, -, hbelow⟩ := conditionalWrite_of_key h hkey
    exact hwrite.recordStep h (hbelow.mp hmax)
  cases op with
  | advanceTombstoneGcWatermark => exact recordStep_advanceTombstoneGcWatermark h hmax
  | applyReplicatedRecord key | applyTombstone key =>
    exact recordStep_applyReplicatedRecord h key hmax
  | compareAndSet key | putIfAbsent key | replaceIfPresent key | removeIfValue key =>
    exact hwrit key rfl
  | tryAcquireLock | forceAcquireLock | renewLease | recordSessionHeartbeat | expireDue
  | expireLostSessions | releaseLock | forceUnlock | validateFenceToken =>
    exact .of_recordState_eq h (recordState_apply s _ rfl nofun)
  | clearForDiagnosticReset =>
    exact ⟨rfl, rfl, le_saturatingSucc h.nextVersion, min_le_right _ _, .reset rfl rfl rfl⟩

theorem VersionsBelow.apply (hmax : BelowMax s op) : VersionsBelow (s.apply op) :=
  h.recordStep (recordStep_of_apply h hmax)

end

theorem versionsBelow_new (epoch partitionCount : ℕ) (limit : Option ℕ) :
    VersionsBelow ((new epoch partitionCount).withLockAcquireLimit limit) where
  nextVersion := (by decide : 1 ≤ maxWord)
  records key record hrec := by cases hrec
  watermarks partition watermark hmark := by cases hmark

/-- Assumes: a run with versions below the top. -/
theorem VersionsBelow.of_run (h : VersionsBelow s) (hrun : run step s ops = some s')
    (hmax : Along step BelowMax s ops) : VersionsBelow s' :=
  run_invariant (fun s op s' hbelow h hstep ↦ by
    cases hstep
    exact h.apply hbelow) h hmax hrun

/-! ### Returned versions -/

/-- The versions returned in a run. -/
def returnedVersions : SingleKeyConditionalStore → List Op → List ℕ
  | _, [] => []
  | s, op :: ops => (s.returnedVersion op).toList ++ returnedVersions (s.apply op) ops

/-- A conditional write that returns a version has stored a record with it, the next one. -/
theorem written_of_returnedVersion (h : VersionsBelow s) {version : ℕ}
    (hret : s.returnedVersion op = some version) :
    version = s.nextVersion ∧ (BelowMax s op ↔ s.nextVersion < maxWord) ∧
      (s.apply op).nextVersion = saturatingSucc s.nextVersion ∧
      ∃ key record, conditionalKey op = some key ∧ record.version = version ∧
        (s.apply op).records = s.records.insert key record := by
  obtain ⟨key, hkey⟩ : ∃ key, conditionalKey op = some key := by
    cases op with
    | compareAndSet key | putIfAbsent key | replaceIfPresent key | removeIfValue key =>
      exact ⟨key, rfl⟩
    | _ => cases hret
  obtain ⟨result, hwrite, hres, hbelow⟩ := conditionalWrite_of_key h hkey
  rw [hres] at hret
  cases hwrite with
  | refused hnone => cases hnone.symm.trans hret
  | written record hsome hstate hver =>
    cases hsome.symm.trans hret
    exact ⟨rfl, hbelow, congrArg RecordState.nextVersion hstate, key, record, hkey, hver,
      congrArg RecordState.records hstate⟩

/-- The versions a run returns start at the next version and grow. -/
theorem returnedVersions_grow (h : VersionsBelow s) (hmax : Along step BelowMax s ops) :
    (∀ version ∈ returnedVersions s ops, s.nextVersion ≤ version) ∧
      (returnedVersions s ops).Pairwise (· < ·) := by
  induction ops generalizing s with
  | nil => exact ⟨by simp [returnedVersions], List.Pairwise.nil⟩
  | cons op _ ih =>
    obtain ⟨hop, hrest⟩ := hmax
    obtain ⟨hlater, hpair⟩ := ih (h.apply hop) (hrest _ rfl)
    have hnext := (recordStep_of_apply h hop).nextVersion
    cases hret : s.returnedVersion op with
    | none =>
      rw [returnedVersions, hret]
      exact ⟨fun version hver ↦ hnext.trans (hlater version hver), hpair⟩
    | some version =>
      obtain ⟨rfl, hbelow, hcnt, -⟩ := written_of_returnedVersion h hret
      have hgrown : s.nextVersion < (s.apply op).nextVersion := by
        rw [hcnt]
        exact lt_saturatingSucc (hbelow.mp hop)
      rw [returnedVersions, hret]
      refine ⟨List.forall_mem_cons.mpr ⟨le_rfl, fun version hver ↦ ?_⟩,
        List.pairwise_cons.mpr ⟨fun version hver ↦ ?_, hpair⟩⟩
      · exact hnext.trans (hlater version hver)
      · exact hgrown.trans_le (hlater version hver)

/-- Assumes: a run of a new store with versions below the top. Where it ends, the next version is
above every version stored and every watermark; the versions it returned grew; and the next
conditional write that is applied wins the merge against the record it replaces, from both sides. -/
theorem nextVersion_exceeds (epoch partitionCount : ℕ) (limit : Option ℕ) (ops : List Op)
    (s : SingleKeyConditionalStore)
    (hrun : run step ((new epoch partitionCount).withLockAcquireLimit limit) ops = some s)
    (hmax : Along step BelowMax ((new epoch partitionCount).withLockAcquireLimit limit) ops) :
    (∀ key record, s.records.lookup key = some record → record.version < s.nextVersion) ∧
      (∀ partition watermark, s.tombstoneGcWatermarks.lookup partition = some watermark →
        watermark.version < s.nextVersion) ∧
      (returnedVersions ((new epoch partitionCount).withLockAcquireLimit limit) ops).Pairwise
        (· < ·) ∧
      ∀ op key version, BelowMax s op → conditionalKey op = some key →
        s.returnedVersion op = some version →
        ∃ record, (s.apply op).records.lookup key = some record ∧ record.version = version ∧
          ∀ replaced, s.records.lookup key = some replaced →
            replaced.merge record = record ∧ record.merge replaced = record := by
  have hstart := versionsBelow_new epoch partitionCount limit
  have h := hstart.of_run hrun hmax
  refine ⟨fun key record hrec ↦ (h.records key record hrec).1,
    fun partition watermark hmark ↦ (h.watermarks partition watermark hmark).1,
    (returnedVersions_grow hstart hmax).2, fun op key version hop hkey hret ↦ ?_⟩
  obtain ⟨rfl, -, -, name, record, hname, hver, hrecs⟩ :=
    written_of_returnedVersion h hret
  rw [hkey] at hname
  cases hname
  refine ⟨record, ?_, hver, fun replaced hrepl ↦ ?_⟩
  · rw [hrecs, AList.lookup_insert]
  · have hlt := h.rank_lt hrepl hver.ge
    exact ⟨selectsBy_merge.right hlt, selectsBy_merge.left hlt⟩

/-- A value is put, a newer one arrives, and that one is removed. -/
def putDeliverRemoveOps : List Op :=
  [.putIfAbsent "user:1" [1] .quorum, .applyReplicatedRecord "user:1" (.value 0 7 1 [2]),
    .removeIfValue "user:1" [2] .all]

theorem nextVersion_exceeds_putDeliverRemoveOps :
    ∃ s, run step ((new 1 1).withLockAcquireLimit none) putDeliverRemoveOps = some s ∧
      returnedVersions ((new 1 1).withLockAcquireLimit none) putDeliverRemoveOps = [1, 8] ∧
      [1, 8].Pairwise (· < ·) ∧
      ∀ key record, s.records.lookup key = some record → record.version < s.nextVersion := by
  have hmax : Along step BelowMax ((new 1 1).withLockAcquireLimit none) putDeliverRemoveOps := by
    refine ⟨(by decide : 1 < maxWord), fun s hs ↦ ?_⟩
    cases hs
    refine ⟨(by decide : 7 < maxWord), fun s hs ↦ ?_⟩
    cases hs
    exact ⟨(by decide : 8 < maxWord), fun _ _ ↦ trivial⟩
  have hvers : returnedVersions ((new 1 1).withLockAcquireLimit none) putDeliverRemoveOps =
      [1, 8] := by
    decide
  obtain ⟨hrecs, -, hgrow, -⟩ := nextVersion_exceeds 1 1 none putDeliverRemoveOps _ rfl hmax
  rw [hvers] at hgrow
  exact ⟨_, rfl, hvers, hgrow, hrecs⟩

/-! ### Tombstones -/

/-- The record of the key ranks at least as high as `tombstone`, or there is none and the watermark
of its partition does. -/
def Covered (key : Key) (tombstone : ReplicatedValueRecord) (s : SingleKeyConditionalStore) :
    Prop :=
  match s.records.lookup key with
  | some record => tombstone.rank ≤ record.rank
  | none => ∃ watermark,
      s.tombstoneGcWatermarks.lookup (partitionForKey key s.partitionCount) = some watermark ∧
        tombstone.order ≤ watermark.order

/-- A watermark that moves within the epoch of the store moves up. -/
theorem order_le_of_version_le (h : VersionsBelow s) {current watermark : TombstoneGcWatermark}
    (hcur : s.tombstoneGcWatermarks.lookup partition = some current)
    (hepoch : watermark.epoch = s.epoch) (hle : current.version ≤ watermark.version) :
    current.order ≤ watermark.order := by
  have hsame : current.epoch = watermark.epoch := by
    rw [hepoch, (h.watermarks partition current hcur).2]
  rw [TombstoneGcWatermark.order, TombstoneGcWatermark.order, Prod.Lex.toLex_le_toLex, hsame]
  rcases hle.lt_or_eq with hlt | heq
  · exact .inl hlt
  · exact .inr ⟨heq, le_rfl⟩

/-- Assumes: no reset. What covers a tombstone is replaced by what covers it. -/
theorem Covered.recordStep {key : Key} {tombstone : ReplicatedValueRecord}
    (hcov : Covered key tombstone s) (h : VersionsBelow s) (hstep : RecordStep s op s')
    (hreset : op ≠ .clearForDiagnosticReset) : Covered key tombstone s' := by
  obtain ⟨-, hparts, -, -, hchg⟩ := hstep
  unfold Covered at hcov ⊢
  cases hchg with
  | keep hrecs hmarks => rwa [hrecs, hmarks, hparts]
  | store name record hrecs hmarks hpart _ hwins habove =>
    rw [hrecs, hmarks, hparts, lookup_insert_apply]
    by_cases hkey : key = name
    · subst hkey
      rw [if_pos rfl]
      -- over a record the new one ranks at least as high, over none it is above the watermark
      cases hcur : s.records.lookup key with
      | some current =>
        rw [hcur] at hcov
        exact hcov.trans (hwins current hcur)
      | none =>
        rw [hcur] at hcov
        obtain ⟨watermark, hmark, hle⟩ := hcov
        rw [← hpart] at hmark
        exact (rank_lt_iff.mpr (.inl (hle.trans_lt (habove watermark hmark)))).le
    · rwa [if_neg hkey]
  | reclaim moved hrecs hmarks hepoch _ hmono =>
    rw [hrecs, hmarks, hparts, lookup_retain, lookup_insert_apply]
    cases hcur : s.records.lookup key with
    | some current =>
      rw [hcur] at hcov
      by_cases hstays : staysAbove moved key current = true
      · rwa [Option.filter_some, if_pos hstays]
      · -- the record is a tombstone at or below the watermark, which covers what it covered
        rw [Option.filter_some, if_neg hstays]
        simp only [staysAbove, Bool.or_eq_true, decide_eq_true_eq, not_or, not_not, not_lt]
          at hstays
        obtain ⟨⟨hpart, -⟩, hbelow⟩ := hstays
        rw [(h.records key current hcur).2] at hpart
        rw [if_pos hpart]
        exact ⟨moved, rfl, (Prod.Lex.monotone_fst _ _ hcov).trans hbelow⟩
    | none =>
      rw [hcur] at hcov
      obtain ⟨watermark, hmark, hle⟩ := hcov
      rw [Option.filter_none]
      split_ifs with hpart
      · rw [hpart] at hmark
        exact ⟨moved, rfl,
          hle.trans (order_le_of_version_le h hmark hepoch (hmono watermark hmark))⟩
      · exact ⟨watermark, hmark, hle⟩
  | reset hop => exact (hreset hop).elim

/-- Assumes: a run of a new store with versions below the top, which has stored a tombstone where
its first part ends, and no reset after that. A live value stored where the run ends is above the
tombstone. -/
theorem live_above_tombstone (epoch partitionCount : ℕ) (limit : Option ℕ) (first rest : List Op)
    (middle s : SingleKeyConditionalStore) (key : Key) (tombstone live : ReplicatedValueRecord)
    (hfirst : run step ((new epoch partitionCount).withLockAcquireLimit limit) first = some middle)
    (hfirstMax : Along step BelowMax ((new epoch partitionCount).withLockAcquireLimit limit) first)
    (hrest : run step middle rest = some s) (hrestMax : Along step BelowMax middle rest)
    (hreset : Op.clearForDiagnosticReset ∉ rest)
    (htombstone : middle.records.lookup key = some tombstone)
    (hdeleted : tombstone.isTombstone = true) (hlive : s.records.lookup key = some live)
    (hkind : live.isTombstone = false) : tombstone.order < live.order := by
  have hmiddle := (versionsBelow_new epoch partitionCount limit).of_run hfirst hfirstMax
  have hcov : VersionsBelow s ∧ Covered key tombstone s := by
    have hnoReset : Along step (fun _ op ↦ op ≠ .clearForDiagnosticReset) middle rest := by
      refine along_of_forall_mem (fun op hop _ heq ↦ ?_) middle
      subst heq
      exact hreset hop
    refine run_invariant (I := fun s ↦ VersionsBelow s ∧ Covered key tombstone s)
      (fun s op s' hop h hstep ↦ ?_) ⟨hmiddle, ?_⟩ (hrestMax.and hnoReset) hrest
    · cases hstep
      have hrec := recordStep_of_apply h.1 hop.1
      exact ⟨h.1.recordStep hrec, h.2.recordStep h.1 hrec hop.2⟩
    · rw [Covered, htombstone]
  have hrank := hcov.2
  rw [Covered, hlive] at hrank
  rcases Prod.Lex.toLex_le_toLex.mp hrank with hlt | ⟨-, hle⟩
  · exact hlt
  · rw [hdeleted, hkind] at hle
    exact absurd (show true ≤ false from hle) (by decide)

/-- A tombstone is reclaimed, an older value arrives late and is refused, and a new value is put. -/
def reclaimPutOps : List Op :=
  [.advanceTombstoneGcWatermark ⟨0, 5, 1, 3⟩, .applyReplicatedRecord "user:1" (.value 0 4 1 [1]),
    .putIfAbsent "user:1" [2] .quorum]

theorem live_above_tombstone_reclaimPutOps :
    ∃ middle s, run step ((new 1 1).withLockAcquireLimit none) [.applyTombstone "user:1" 5] =
        some middle ∧
      middle.records.lookup "user:1" = some (.tombstone 0 5 1 none) ∧
      run step middle reclaimPutOps = some s ∧
      s.records.lookup "user:1" = some (.value 0 6 1 [2]) ∧
      (tombstone 0 5 1 none).order < (value 0 6 1 [2]).order := by
  have hmax : Along step BelowMax
      (((new 1 1).withLockAcquireLimit none).apply (.applyTombstone "user:1" 5)) reclaimPutOps := by
    refine ⟨(by decide : 5 < maxWord), fun s hs ↦ ?_⟩
    cases hs
    refine ⟨(by decide : 4 < maxWord), fun s hs ↦ ?_⟩
    cases hs
    exact ⟨(by decide : 6 < maxWord), fun _ _ ↦ trivial⟩
  refine ⟨_, _, rfl, by decide, rfl, by decide, ?_⟩
  exact live_above_tombstone 1 1 none [.applyTombstone "user:1" 5] reclaimPutOps _ _ "user:1" _ _
    rfl ⟨(by decide : 5 < maxWord), fun _ _ ↦ trivial⟩ rfl hmax (by simp [reclaimPutOps])
    (by decide) rfl (by decide) rfl

end HydraCache.Grid.SingleKeyConditionalStore
