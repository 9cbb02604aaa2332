import HydraCache.Grid.ConditionalStore
import HydraCache.Lib.Run

/-!
# Fence tokens

`fencing` is about all runs of the store, diagnostic resets included, with the fence counter below
its top. A new hold of any key gets a token above all tokens handed out before. Once the hold of a
token is over, because it was replaced, fully released, expired, unlocked or cleared, the token is
refused for its key by validation, renewal and release in every state that follows.

Both come from what one operation can do to the holds (`LockStep`): a hold after it has the token of
the hold there before, or the next token, which the operation then consumed.
-/

set_option autoImplicit false

namespace HydraCache.Grid.SingleKeyConditionalStore

open Lib

/-! ### The part of the store that records leave alone -/

/-- The fields that say which tokens are current and which is next. -/
structure LockState where
  locks : KeyMap Key LockHold
  nextFence : FenceToken

def lockState (s : SingleKeyConditionalStore) : LockState := ⟨s.locks, s.nextFence⟩

variable {s s' : SingleKeyConditionalStore} {op : Op} {key : Key} {hold : LockHold}
  {next : FenceToken} {found : Option LockHold} {gone : LockHold → Bool}

def forgetRecords (s : SingleKeyConditionalStore) : SingleKeyConditionalStore :=
  { s with records := ∅, tombstoneGcWatermarks := ∅, nextVersion := 0, metrics := {} }

section

variable (s : SingleKeyConditionalStore) (key : Key)

/-- An operation on records leaves the rest of the store as it was. -/
theorem forgetRecords_apply (op : Op) (h : op.onRecords = true) :
    (s.apply op).forgetRecords = s.forgetRecords := by
  have hrecord (key : Key) (record : ReplicatedValueRecord) :
      (s.applyReplicatedRecord key record).2.forgetRecords = s.forgetRecords := by
    fun_cases applyReplicatedRecord <;> rfl
  have hset (key : Key) (expected : Option SealedBytes) (value : SealedBytes)
      (level : ConsistencyLevel) :
      (s.compareAndSet key expected value level).2.forgetRecords = s.forgetRecords := by
    fun_cases compareAndSet <;> rfl
  fun_cases apply with
  | case1 => fun_cases advanceTombstoneGcWatermark <;> rfl
  | case2 | case3 => exact hrecord ..
  | case4 | case5 => exact hset ..
  | case6 => fun_cases replaceIfPresent <;> first | rfl | exact hset ..
  | case7 => fun_cases removeIfValue <;> first | rfl | exact hrecord ..
  | _ => cases h

theorem lockState_apply (op : Op) (h : op.onRecords = true) :
    (s.apply op).lockState = s.lockState := by
  have hsame := congrArg lockState (s.forgetRecords_apply op h)
  exact hsame

theorem lockState_removeHeartbeatIfUnused (session : SessionId) :
    (s.removeHeartbeatIfUnused session).lockState = s.lockState := by
  unfold removeHeartbeatIfUnused
  split_ifs <;> rfl

/-- A new hold takes the next token. -/
theorem lockState_installHold (owner : LockOwner) (lease now : ℕ) (replaced : Option SessionId) :
    (s.installHold key owner lease now replaced).2.lockState =
      ⟨s.locks.insert key
          { owner, fence := s.nextFence, holds := 1, leaseDeadline := saturatingAdd now lease },
        saturatingSucc s.nextFence⟩ := by
  unfold installHold
  dsimp only
  split
  · split_ifs
    · exact lockState_removeHeartbeatIfUnused ..
    · rfl
  · rfl

section

variable (expired : List SessionId × SingleKeyConditionalStore) (key : Key)

theorem lookup_expireKey (other : Key) : (expireKey expired key).2.locks.lookup other =
      if other = key then none else expired.2.locks.lookup other := by
  unfold expireKey
  dsimp only
  split
  · rename_i hnone
    split_ifs with hkey
    · rw [hkey, hnone]
    · rfl
  · exact KeyMap.lookup_erase_apply ..

theorem nextFence_expireKey (h : expired.2.nextFence ≤ maxWord) :
    expired.2.nextFence ≤ (expireKey expired key).2.nextFence ∧
      (expireKey expired key).2.nextFence ≤ maxWord := by
  unfold expireKey
  dsimp only
  split
  · exact ⟨le_rfl, h⟩
  · exact ⟨le_saturatingSucc h, min_le_right _ _⟩

theorem lockState_expireKeys (keys : List Key) :
    (s.expireKeys keys).2.lockState = (keys.foldl expireKey ([], s)).2.lockState :=
  List.foldlRecOn
    (motive := fun other ↦ other.lockState = (keys.foldl expireKey ([], s)).2.lockState) _ _ rfl
    fun other h session _ ↦ (lockState_removeHeartbeatIfUnused other session).trans h

theorem lookup_foldl_expireKey (keys : List Key) (other : Key) :
    (keys.foldl expireKey expired).2.locks.lookup other =
      if other ∈ keys then none else expired.2.locks.lookup other := by
  induction keys generalizing expired with
  | nil => simp
  | cons key keys ih =>
    rw [List.foldl_cons, ih, lookup_expireKey]
    by_cases hmem : other ∈ keys <;> by_cases hkey : other = key <;> simp [hmem, hkey]

end

/-- Expiry removes the holds under the keys and leaves the others. -/
theorem lookup_expireKeys (keys : List Key) (other : Key) :
    (s.expireKeys keys).2.locks.lookup other =
      if other ∈ keys then none else s.locks.lookup other := by
  have hlocks : (s.expireKeys keys).2.locks = (keys.foldl expireKey ([], s)).2.locks :=
    congrArg LockState.locks (lockState_expireKeys ..)
  rw [hlocks, lookup_foldl_expireKey]

end

theorem nextFence_expireKeys (h : s.nextFence ≤ maxWord) (keys : List Key) :
    s.nextFence ≤ (s.expireKeys keys).2.nextFence ∧ (s.expireKeys keys).2.nextFence ≤ maxWord := by
  have hnext : (s.expireKeys keys).2.nextFence = (keys.foldl expireKey ([], s)).2.nextFence :=
    congrArg LockState.nextFence (lockState_expireKeys ..)
  rw [hnext]
  refine List.foldlRecOn (motive := fun expired : List SessionId × SingleKeyConditionalStore ↦
    s.nextFence ≤ expired.2.nextFence ∧ expired.2.nextFence ≤ maxWord) keys _ ⟨le_rfl, h⟩
    fun expired hexp key _ ↦ ?_
  have hkey := nextFence_expireKey expired key hexp.2
  exact ⟨hexp.1.trans hkey.1, hkey.2⟩

/-! ### What a lock operation answers and leaves -/

/-- The hold of one key and the next token are as said, and nothing else about holds has changed. -/
structure SetsHold (s : SingleKeyConditionalStore) (key : Key) (found : Option LockHold)
    (next : FenceToken) (s' : SingleKeyConditionalStore) : Prop where
  lookup : ∀ name, s'.locks.lookup name = if name = key then found else s.locks.lookup name
  nextFence : s'.nextFence = next

section

variable (s : SingleKeyConditionalStore) (key : Key) (level : ConsistencyLevel) (owner : LockOwner)
  (lease now : ℕ)

/-- What an attempt to acquire a lock answers, the hold it leaves and the next token. -/
inductive Acquisition :
    Except ConditionalError (Option FenceToken) → Option LockHold → FenceToken → Prop where
  | kept {answer : Except ConditionalError (Option FenceToken)}
      (hnone : ∀ token, answer ≠ .ok (some token))
      (h : level.allowsSingleKeyLinearizable = true →
        ∃ hold, s.locks.lookup key = some hold ∧ hold.expiredAt now = false) :
    Acquisition answer (s.locks.lookup key) s.nextFence
  | installed (h : ∀ hold, s.locks.lookup key = some hold → hold.expiredAt now = true) :
    Acquisition (.ok (some s.nextFence))
      (some { owner, fence := s.nextFence, holds := 1, leaseDeadline := saturatingAdd now lease })
      (saturatingSucc s.nextFence)
  | own (hold : LockHold) (h : s.locks.lookup key = some hold) (hlive : hold.expiredAt now = false)
      (howner : hold.owner = owner) (holds : ℕ) :
    Acquisition (.ok (some hold.fence))
      (some { hold with holds, leaseDeadline := max hold.leaseDeadline (saturatingAdd now lease) })
      s.nextFence

end

/-- What the use of a token answers and the hold it leaves. One with the token becomes what `used`
says. -/
inductive TokenUse (s : SingleKeyConditionalStore) (key : Key) (owner : LockOwner)
    (token : FenceToken) (used : LockHold → Option LockHold) :
    Except ConditionalError Unit → Option LockHold → Prop where
  | refused (error : ConditionalError) :
    TokenUse s key owner token used (.error error) (s.locks.lookup key)
  | accepted (hold : LockHold) (h : s.locks.lookup key = some hold) (howner : hold.owner = owner)
      (hfence : hold.fence = token) : TokenUse s key owner token used (.ok ()) (used hold)

namespace SetsHold

theorem lookup_self (h : SetsHold s key found next s') : s'.locks.lookup key = found :=
  (h.lookup key).trans (if_pos rfl)

theorem of_same (h : s'.lockState = s.lockState) :
    SetsHold s key (s.locks.lookup key) s.nextFence s' where
  lookup name := by
    rw [show s'.locks = s.locks from congrArg LockState.locks h]
    split_ifs with hname
    · rw [hname]
    · rfl
  nextFence := congrArg LockState.nextFence h

theorem of_insert (h : s'.lockState = ⟨s.locks.insert key hold, next⟩) :
    SetsHold s key (some hold) next s' where
  lookup name := by
    rw [show s'.locks = s.locks.insert key hold from congrArg LockState.locks h]
    exact KeyMap.lookup_insert_apply ..
  nextFence := congrArg LockState.nextFence h

theorem of_erase (h : s'.lockState = ⟨s.locks.erase key, next⟩) : SetsHold s key none next s' where
  lookup name := by
    rw [show s'.locks = s.locks.erase key from congrArg LockState.locks h]
    exact KeyMap.lookup_erase_apply ..
  nextFence := congrArg LockState.nextFence h

end SetsHold

section

variable (s : SingleKeyConditionalStore) (key : Key) (level : ConsistencyLevel) (owner : LockOwner)
  (lease now : ℕ) (token : FenceToken)

theorem acquisition_tryAcquireLock : ∃ answer found next,
    (s.tryAcquireLock key level owner lease now).1 = answer ∧
      Acquisition s key level owner lease now answer found next ∧
      SetsHold s key found next (s.tryAcquireLock key level owner lease now).2 := by
  unfold tryAcquireLock requireLinearizableLevel
  by_cases hlevel : level.allowsSingleKeyLinearizable = true
  · rw [if_pos hlevel]
    dsimp only
    split
    · rename_i hfree
      dsimp only
      exact ⟨_, _, _, rfl, .installed (by simp [hfree]), .of_insert (lockState_installHold ..)⟩
    · rename_i hold hhold
      split_ifs with hexp howner
      · dsimp only
        exact ⟨_, _, _, rfl, .installed (by simp [hhold, hexp]),
          .of_insert (lockState_installHold ..)⟩
      · rw [isLockedBy, hhold] at howner
        have hlive := Bool.eq_false_iff.mpr hexp
        split
        · exact ⟨_, _, _, rfl, .kept nofun fun _ ↦ ⟨hold, hhold, hlive⟩, .of_same rfl⟩
        · exact ⟨_, _, _, rfl, .own hold hhold hlive (of_decide_eq_true howner) _, .of_insert rfl⟩
      · exact ⟨_, _, _, rfl, .kept nofun fun _ ↦ ⟨hold, hhold, Bool.eq_false_iff.mpr hexp⟩,
          .of_same rfl⟩
  · rw [if_neg hlevel]
    exact ⟨_, _, _, rfl, .kept nofun fun h ↦ absurd h hlevel, .of_same rfl⟩

theorem tokenUse_renewLease (newDeadline : ℕ) : ∃ answer found,
    (s.renewLease key owner token newDeadline).1 = answer ∧
      TokenUse s key owner token (fun hold ↦ some { hold with leaseDeadline := newDeadline })
        answer found ∧
      SetsHold s key found s.nextFence (s.renewLease key owner token newDeadline).2 := by
  unfold renewLease
  split
  · exact ⟨_, _, rfl, .refused _, .of_same rfl⟩
  · rename_i hold hhold
    split_ifs with howner hfence
    · exact ⟨_, _, rfl, .refused _, .of_same rfl⟩
    · exact ⟨_, _, rfl, .refused _, .of_same rfl⟩
    · exact ⟨_, _, rfl, .accepted hold hhold (not_not.mp howner) (not_not.mp hfence),
        .of_insert rfl⟩

theorem tokenUse_releaseLock : ∃ answer found,
    (s.releaseLock key owner token).1 = answer ∧
      TokenUse s key owner token
        (fun hold ↦ if 1 < hold.holds then some { hold with holds := hold.holds - 1 } else none)
        answer found ∧
      SetsHold s key found s.nextFence (s.releaseLock key owner token).2 := by
  unfold releaseLock
  split
  · exact ⟨_, _, rfl, .refused _, .of_same rfl⟩
  · rename_i hold hhold
    split_ifs with howner hfence hmore
    · exact ⟨_, _, rfl, .refused _, .of_same rfl⟩
    · exact ⟨_, _, rfl, .refused _, .of_same rfl⟩
    · refine ⟨_, _, rfl, .accepted hold hhold (not_not.mp howner) (not_not.mp hfence), ?_⟩
      rw [if_pos hmore]
      exact .of_insert rfl
    · refine ⟨_, _, rfl, .accepted hold hhold (not_not.mp howner) (not_not.mp hfence), ?_⟩
      rw [if_neg hmore]
      exact .of_erase (lockState_removeHeartbeatIfUnused ..)

theorem setsHold_forceUnlock : ∃ next, (next = s.nextFence ∨ next = saturatingSucc s.nextFence) ∧
    (∀ token, (s.forceUnlock key).1 = some token →
      token = s.nextFence ∧ next = saturatingSucc s.nextFence) ∧
    SetsHold s key none next (s.forceUnlock key).2 := by
  unfold forceUnlock
  split
  · rename_i hfree
    exact ⟨_, .inl rfl, nofun, hfree ▸ .of_same rfl⟩
  · rename_i hold _
    have hstate :=
      lockState_removeHeartbeatIfUnused { s with locks := s.locks.erase key } hold.owner.session
    refine ⟨_, .inr rfl, fun token htoken ↦ ⟨?_, rfl⟩, .of_erase
      (congrArg (fun state ↦ LockState.mk state.locks (saturatingSucc state.nextFence)) hstate)⟩
    cases htoken
    exact congrArg LockState.nextFence hstate

end

/-- The keys that expire are those whose hold satisfies what selects holds to expire. -/
theorem mem_keysOfHolds_iff :
    key ∈ s.keysOfHolds gone ↔ ∃ hold, s.locks.lookup key = some hold ∧ gone hold = true := by
  simp [keysOfHolds, ← Option.mem_def, AList.mem_lookup_iff]

/-! ### What a step does to the holds -/

/-- Every token held is below the next one. -/
structure FencesBelow (s : SingleKeyConditionalStore) : Prop where
  nextFence : s.nextFence ≤ maxWord
  holds : ∀ key hold, s.locks.lookup key = some hold → hold.fence < s.nextFence

/-- The token an operation hands out. -/
def issuedToken (s : SingleKeyConditionalStore) : Op → Option FenceToken
  | .tryAcquireLock key level owner lease now =>
    match (s.tryAcquireLock key level owner lease now).1 with
    | .ok token => token
    | .error _ => none
  | .forceAcquireLock key level owner lease now =>
    match (s.forceAcquireLock key level owner lease now).1 with
    | .ok token => some token
    | .error _ => none
  | .forceUnlock key => (s.forceUnlock key).1
  | _ => none

/-- The tokens handed out in a run. -/
def issuedTokens : SingleKeyConditionalStore → List Op → List FenceToken
  | _, [] => []
  | s, op :: ops => (s.issuedToken op).toList ++ issuedTokens (s.apply op) ops

/-- The owner has an unexpired hold of the key. -/
def isReentrant (s : SingleKeyConditionalStore) (key : Key) (owner : LockOwner) (now : ℕ) : Bool :=
  (s.locks.lookup key).any fun hold ↦ !hold.expiredAt now && decide (hold.owner = owner)

/-- The operation acquires a lock, and not again. -/
def Acquires (s : SingleKeyConditionalStore) : Op → Prop
  | .tryAcquireLock key _ owner _ now => s.isReentrant key owner now = false
  | .forceAcquireLock .. => True
  | _ => False

/-- The operation replaces, fully releases or removes the hold of the key. -/
def EndsHold (s : SingleKeyConditionalStore) (key : Key) (hold : LockHold) : Op → Prop
  | .tryAcquireLock name level _ _ now =>
    name = key ∧ level.allowsSingleKeyLinearizable = true ∧ hold.expiredAt now = true
  | .forceAcquireLock name level .. => name = key ∧ level.allowsSingleKeyLinearizable = true
  | .releaseLock name owner token =>
    name = key ∧ (s.releaseLock name owner token).1 = .ok () ∧ hold.holds ≤ 1
  | .forceUnlock name => name = key
  | .expireDue now => hold.expiredAt now = true
  | .expireLostSessions now maxSilence => hold.owner.session ∈ s.lostSessions now maxSilence
  | .clearForDiagnosticReset => True
  | _ => False

/-- A hold has the token of the hold that was there and did not end, or the next token, which is
then consumed. A token handed out is the next one, consumed, or that of a hold acquired again. -/
structure LockStep (s : SingleKeyConditionalStore) (op : Op) (s' : SingleKeyConditionalStore) :
    Prop where
  nextFence : s.nextFence ≤ s'.nextFence
  nextFence_le : s'.nextFence ≤ maxWord
  holds : ∀ key hold', s'.locks.lookup key = some hold' →
    (∃ hold, s.locks.lookup key = some hold ∧ hold.fence = hold'.fence ∧ ¬s.EndsHold key hold op) ∨
      (hold'.fence = s.nextFence ∧ s'.nextFence = saturatingSucc s.nextFence)
  issued : ∀ token, s.issuedToken op = some token →
    (token = s.nextFence ∧ s'.nextFence = saturatingSucc s.nextFence) ∨
      (¬s.Acquires op ∧ ∃ key hold, s.locks.lookup key = some hold ∧ hold.fence = token)

variable {level : ConsistencyLevel} {owner : LockOwner} {token : FenceToken} {lease now : ℕ}

theorem issuedToken_tryAcquireLock :
    s.issuedToken (.tryAcquireLock key level owner lease now) = some token ↔
      (s.tryAcquireLock key level owner lease now).1 = .ok (some token) := by
  simp only [issuedToken]
  split <;> simp [*]

section

variable (h : FencesBelow s)
include h

theorem LockStep.of_lockState_eq (heq : s'.lockState = s.lockState)
    (hends : ∀ key hold, s.locks.lookup key = some hold → ¬s.EndsHold key hold op)
    (hissued : s.issuedToken op = none) : LockStep s op s' where
  nextFence := (congrArg LockState.nextFence heq).ge
  nextFence_le := (congrArg LockState.nextFence heq).trans_le h.nextFence
  holds key hold' hhold := by
    rw [show s'.locks = s.locks from congrArg LockState.locks heq] at hhold
    exact .inl ⟨hold', hhold, rfl, hends key hold' hhold⟩
  issued token htoken := by cases hissued.symm.trans htoken

theorem LockStep.of_setsHold (hset : SetsHold s key found next s')
    (hnext : next = s.nextFence ∨ next = saturatingSucc s.nextFence)
    (hends : ∀ name hold, s.EndsHold name hold op → name = key)
    (hfound : ∀ hold', found = some hold' →
      (∃ hold, s.locks.lookup key = some hold ∧ hold.fence = hold'.fence ∧
      ¬s.EndsHold key hold op) ∨ (hold'.fence = s.nextFence ∧ next = saturatingSucc s.nextFence))
    (hissued : ∀ token, s.issuedToken op = some token →
      (token = s.nextFence ∧ next = saturatingSucc s.nextFence) ∨
      (¬s.Acquires op ∧ ∃ key hold, s.locks.lookup key = some hold ∧ hold.fence = token)) :
    LockStep s op s' := by
  obtain ⟨hlook, rfl⟩ := hset
  have hle : s.nextFence ≤ s'.nextFence ∧ s'.nextFence ≤ maxWord := by
    rcases hnext with hnext | hnext <;> rw [hnext]
    · exact ⟨le_rfl, h.nextFence⟩
    · exact ⟨le_saturatingSucc h.nextFence, min_le_right _ _⟩
  refine ⟨hle.1, hle.2, fun name hold' hhold' ↦ ?_, hissued⟩
  rw [hlook] at hhold'
  split_ifs at hhold' with hname
  · subst hname
    exact hfound hold' hhold'
  · exact .inl ⟨hold', hhold', rfl, fun hended ↦ hname (hends name hold' hended)⟩

theorem lockStep_tryAcquireLock :
    LockStep s (.tryAcquireLock key level owner lease now)
      (s.tryAcquireLock key level owner lease now).2 := by
  obtain ⟨answer, found, next, hans, hacq, hset⟩ :=
    s.acquisition_tryAcquireLock key level owner lease now
  have hissued {token : FenceToken} := @issuedToken_tryAcquireLock s key level owner token lease now
  rw [hans] at hissued
  cases hacq with
  | kept hnone hlive =>
    refine .of_setsHold h hset (.inl rfl) (fun _ _ hends ↦ hends.1.symm)
      (fun hold hhold ↦ .inl ⟨hold, hhold, rfl, ?_⟩)
      fun token htoken ↦ absurd (hissued.mp htoken) (hnone token)
    rintro ⟨-, hlevel, hexp⟩
    obtain ⟨running, hruns, hlive⟩ := hlive hlevel
    cases hhold.symm.trans hruns
    exact absurd hexp (Bool.eq_false_iff.mp hlive)
  | installed =>
    refine .of_setsHold h hset (.inr rfl) (fun _ _ hends ↦ hends.1.symm) (fun hold hhold ↦ .inr ?_)
      fun token htoken ↦ .inl ?_
    · cases hhold
      exact ⟨rfl, rfl⟩
    · cases hissued.mp htoken
      exact ⟨rfl, rfl⟩
  | own hold hhold hlive howner =>
    refine .of_setsHold h hset (.inl rfl) (fun _ _ hends ↦ hends.1.symm)
      (fun changed hchg ↦ .inl ?_)
      fun token htoken ↦ .inr ⟨?_, key, hold, hhold, ?_⟩
    · cases hchg
      exact ⟨hold, hhold, rfl, fun hends ↦ absurd hends.2.2 (Bool.eq_false_iff.mp hlive)⟩
    · simp [Acquires, isReentrant, hhold, hlive, howner]
    · cases hissued.mp htoken
      rfl

/-- Holds expire. -/
theorem lockStep_expireKeys
    (hlocks : s'.lockState = (s.expireKeys (s.keysOfHolds gone)).2.lockState)
    (hends : ∀ key hold, s.EndsHold key hold op → gone hold = true)
    (hissued : s.issuedToken op = none) : LockStep s op s' := by
  obtain ⟨hmono, hle⟩ := nextFence_expireKeys h.nextFence (s.keysOfHolds gone)
  have hnext : s'.nextFence = (s.expireKeys (s.keysOfHolds gone)).2.nextFence :=
    congrArg LockState.nextFence hlocks
  refine ⟨hnext ▸ hmono, hnext ▸ hle, fun name hold hhold ↦ ?_, fun token htoken ↦ ?_⟩
  · rw [show s'.locks = (s.expireKeys _).2.locks from congrArg LockState.locks hlocks,
      lookup_expireKeys] at hhold
    split_ifs at hhold with hgone
    exact .inl ⟨hold, hhold, rfl, fun hended ↦
      hgone (mem_keysOfHolds_iff.mpr ⟨hold, hhold, hends name hold hended⟩)⟩
  · cases hissued.symm.trans htoken

theorem lockStep_of_apply (op : Op) : LockStep s op (s.apply op) := by
  have hrecords := s.lockState_apply op
  cases op with
  | advanceTombstoneGcWatermark | applyReplicatedRecord | applyTombstone | compareAndSet
  | putIfAbsent | replaceIfPresent | removeIfValue =>
    exact .of_lockState_eq h (hrecords rfl) (fun _ _ _ ↦ id) rfl
  | tryAcquireLock => exact lockStep_tryAcquireLock h
  | forceAcquireLock key level owner lease now =>
    by_cases hlevel : level.allowsSingleKeyLinearizable = true
    · simp only [apply, forceAcquireLock, requireLinearizableLevel, if_pos hlevel]
      refine .of_setsHold h (.of_insert (lockState_installHold ..)) (.inr rfl)
        (fun _ _ hends ↦ hends.1.symm) (fun hold hhold ↦ .inr ?_) fun token htoken ↦ .inl ?_
      · cases hhold
        exact ⟨rfl, rfl⟩
      · simp only [issuedToken, forceAcquireLock, requireLinearizableLevel, if_pos hlevel] at htoken
        cases htoken
        exact ⟨rfl, rfl⟩
    · simp only [apply, forceAcquireLock, requireLinearizableLevel, if_neg hlevel]
      refine .of_lockState_eq h rfl (fun _ _ _ hends ↦ hlevel hends.2) ?_
      simp only [issuedToken, forceAcquireLock, requireLinearizableLevel, if_neg hlevel]
  | renewLease key owner token newDeadline =>
    obtain ⟨answer, found, -, huse, hset⟩ := s.tokenUse_renewLease key owner token newDeadline
    refine .of_setsHold h hset (.inl rfl) (fun _ _ ↦ False.elim) (fun hold' hhold' ↦ .inl ?_) nofun
    cases huse with
    | refused => exact ⟨hold', hhold', rfl, id⟩
    | accepted hold hhold =>
      cases hhold'
      exact ⟨hold, hhold, rfl, id⟩
  | recordSessionHeartbeat => exact .of_lockState_eq h rfl (fun _ _ _ ↦ id) rfl
  | expireDue => exact lockStep_expireKeys h rfl (fun _ _ ↦ id) rfl
  | expireLostSessions => exact lockStep_expireKeys h rfl (fun _ _ hlost ↦ decide_eq_true hlost) rfl
  | releaseLock key owner token =>
    obtain ⟨answer, found, hans, huse, hset⟩ := s.tokenUse_releaseLock key owner token
    refine .of_setsHold h hset (.inl rfl) (fun _ _ hends ↦ hends.1.symm)
      (fun hold' hhold' ↦ .inl ?_) nofun
    cases huse with
    | refused => exact ⟨hold', hhold', rfl, fun hends ↦ by cases hans.symm.trans hends.2.1⟩
    | accepted hold hhold =>
      split_ifs at hhold' with hmore
      cases hhold'
      exact ⟨hold, hhold, rfl, fun hends ↦ absurd hmore (Nat.not_lt.mpr hends.2.2)⟩
  | forceUnlock key =>
    obtain ⟨next, hnext, hissued, hset⟩ := s.setsHold_forceUnlock key
    exact .of_setsHold h hset hnext (fun _ _ hends ↦ hends.symm) nofun fun token ↦
      .inl ∘ hissued token
  | validateFenceToken =>
    simp only [apply, validateFenceToken]
    split_ifs <;> exact .of_lockState_eq h rfl (fun _ _ _ ↦ id) rfl
  | clearForDiagnosticReset => exact ⟨le_saturatingSucc h.nextFence, min_le_right _ _, nofun, nofun⟩

/-- Assumes: the fence counter is below its top. A step keeps the tokens held below the next one. -/
theorem FencesBelow.lockStep (hmax : s.nextFence < maxWord) (hstep : LockStep s op s') :
    FencesBelow s' := by
  refine ⟨hstep.nextFence_le, fun key hold' hhold' ↦ ?_⟩
  rcases hstep.holds key hold' hhold' with ⟨hold, hhold, hfence, -⟩ | ⟨hfence, hnext⟩
  · rw [← hfence]
    exact (h.holds key hold hhold).trans_le hstep.nextFence
  · rw [hfence, hnext]
    exact lt_saturatingSucc hmax

end

theorem fencesBelow_new (epoch partitionCount : ℕ) (limit : Option ℕ) :
    FencesBelow ((new epoch partitionCount).withLockAcquireLimit limit) where
  nextFence := (by decide : 1 ≤ maxWord)
  holds key hold hhold := by cases hhold

/-- Assumes: a run with the fence counter below its top. All tokens it handed out are below the next
one. -/
theorem issuedTokens_lt (h : FencesBelow s) {ops : List Op} (hrun : run step s ops = some s')
    (hmax : Along step (fun s _ ↦ s.nextFence < maxWord) s ops) :
    FencesBelow s' ∧ s.nextFence ≤ s'.nextFence ∧
      ∀ token ∈ issuedTokens s ops, token < s'.nextFence := by
  induction ops generalizing s with
  | nil =>
    cases hrun
    exact ⟨h, le_rfl, by simp [issuedTokens]⟩
  | cons op _ ih =>
    obtain ⟨hop, hrest⟩ := hmax
    have hstep := lockStep_of_apply h op
    obtain ⟨hend, hnext, hlater⟩ := ih (h.lockStep hop hstep) hrun (hrest _ rfl)
    refine ⟨hend, hstep.nextFence.trans hnext,
      List.forall_mem_append.mpr ⟨fun token hmem ↦ ?_, hlater⟩⟩
    refine lt_of_lt_of_le ?_ hnext
    rcases hstep.issued token (Option.mem_toList.mp hmem) with
      ⟨rfl, hnext⟩ | ⟨-, key, hold, hhold, rfl⟩
    · rw [hnext]
      exact lt_saturatingSucc hop
    · exact (h.holds key hold hhold).trans_le hstep.nextFence

/-! ### Tokens that are over -/

/-- The key has no hold with the token, and will not get one. -/
structure Retired (key : Key) (token : FenceToken) (s : SingleKeyConditionalStore) : Prop where
  below : token < s.nextFence
  holds : ∀ hold, s.locks.lookup key = some hold → hold.fence ≠ token

/-- No use of the token for the key is accepted. -/
def Rejects (s : SingleKeyConditionalStore) (key : Key) (token : FenceToken) : Prop :=
  (s.validateFenceToken key token).1 ≠ .ok () ∧
    (∀ owner newDeadline, (s.renewLease key owner token newDeadline).1 ≠ .ok ()) ∧
    ∀ owner, (s.releaseLock key owner token).1 ≠ .ok ()

theorem Retired.lockStep (h : Retired key token s) (hstep : LockStep s op s') :
    Retired key token s' := by
  refine ⟨h.below.trans_le hstep.nextFence, fun hold' hhold' ↦ ?_⟩
  rcases hstep.holds key hold' hhold' with ⟨hold, hhold, hfence, -⟩ | ⟨hfence, -⟩
  · rw [← hfence]
    exact h.holds hold hhold
  · rw [hfence]
    exact h.below.ne'

/-- A token that is accepted is the one of the hold. -/
theorem current_of_validateFenceToken (h : (s.validateFenceToken key token).1 = .ok ()) :
    ∃ hold, s.locks.lookup key = some hold ∧ hold.fence = token := by
  unfold validateFenceToken at h
  dsimp only at h
  split_ifs at h with hcur
  · exact Option.map_eq_some_iff.mp hcur
  · cases h

theorem TokenUse.current {used : LockHold → Option LockHold}
    (h : TokenUse s key owner token used (.ok ()) found) :
    ∃ hold, s.locks.lookup key = some hold ∧ hold.fence = token := by
  cases h with
  | accepted hold hhold _ hfence => exact ⟨hold, hhold, hfence⟩

theorem Retired.rejects (h : Retired key token s) : s.Rejects key token := by
  have hstale : ¬ ∃ hold, s.locks.lookup key = some hold ∧ hold.fence = token := by
    rintro ⟨hold, hhold, hfence⟩
    exact h.holds hold hhold hfence
  refine ⟨fun hok ↦ hstale (current_of_validateFenceToken hok), fun owner newDeadline hok ↦ ?_,
    fun owner hok ↦ ?_⟩
  · obtain ⟨_, found, rfl, huse, -⟩ := s.tokenUse_renewLease key owner token newDeadline
    exact hstale (hok ▸ huse).current
  · obtain ⟨_, found, rfl, huse, -⟩ := s.tokenUse_releaseLock key owner token
    exact hstale (hok ▸ huse).current

/-- Assumes: a run of a new store with the fence counter below its top. The next new hold gets a
token above all tokens handed out in the run. If the next operation ends a hold, its token is
refused for its key wherever a run goes on from there, with the fence counter below its top. -/
theorem fencing (epoch partitionCount : ℕ) (limit : Option ℕ) (ops : List Op)
    (s : SingleKeyConditionalStore)
    (hrun : run step ((new epoch partitionCount).withLockAcquireLimit limit) ops = some s)
    (hmax : Along step (fun s _ ↦ s.nextFence < maxWord)
      ((new epoch partitionCount).withLockAcquireLimit limit) ops) :
    (∀ op token, s.Acquires op → s.issuedToken op = some token →
        ∀ earlier ∈ issuedTokens ((new epoch partitionCount).withLockAcquireLimit limit) ops,
          earlier < token) ∧
      ∀ key hold op rest later, s.locks.lookup key = some hold → s.EndsHold key hold op →
        run step s (op :: rest) = some later →
        Along step (fun s _ ↦ s.nextFence < maxWord) s (op :: rest) →
        later.Rejects key hold.fence := by
  obtain ⟨h, -, hiss⟩ :=
    issuedTokens_lt (fencesBelow_new ..) hrun hmax
  refine ⟨fun op token hacq htoken earlier hprev ↦ ?_,
    fun key hold op rest later hhold hends hlater hbelow ↦ ?_⟩
  · rcases (lockStep_of_apply h op).issued token htoken with ⟨rfl, -⟩ | ⟨hagain, -⟩
    · exact hiss earlier hprev
    · exact absurd hacq hagain
  · have hfence := h.holds key hold hhold
    have hstep := lockStep_of_apply h op
    have hretired : Retired key hold.fence (s.apply op) := by
      refine ⟨hfence.trans_le hstep.nextFence, fun other hother ↦ ?_⟩
      rcases hstep.holds key other hother with ⟨old, hold, -, hlive⟩ | ⟨hnew, -⟩
      · cases hhold.symm.trans hold
        exact absurd hends hlive
      · rw [hnew]
        exact hfence.ne'
    obtain ⟨-, hend⟩ := run_invariant (I := fun s ↦ FencesBelow s ∧ Retired key hold.fence s)
      (fun s op s' hcnt hboth hnext ↦ by
        cases hnext
        have hstep := lockStep_of_apply hboth.1 op
        exact ⟨hboth.1.lockStep hcnt hstep, hboth.2.lockStep hstep⟩)
      ⟨h.lockStep hbelow.1 hstep, hretired⟩ (hbelow.2 _ rfl) hlater
    exact hend.rejects

/-- An owner acquires a lock. -/
def firstHoldOps : List Op :=
  [.tryAcquireLock "job" .quorum ⟨"first", 0⟩ 10 0]

/-- The hold expires, another owner acquires the lock, and that hold expires too. -/
theorem fencing_firstHoldOps :
    ∃ s later hold, run step ((new 1 1).withLockAcquireLimit none) firstHoldOps = some s ∧
      s.locks.lookup "job" = some hold ∧
      run step s [.tryAcquireLock "job" .quorum ⟨"second", 0⟩ 10 20, .expireDue 40] = some later ∧
      (∀ earlier ∈ issuedTokens ((new 1 1).withLockAcquireLimit none) firstHoldOps, earlier < 2) ∧
      later.Rejects "job" hold.fence := by
  have hmax : Along step (fun s _ ↦ s.nextFence < maxWord)
      ((new 1 1).withLockAcquireLimit none) firstHoldOps :=
    ⟨by decide, fun _ _ ↦ trivial⟩
  obtain ⟨hacq, hended⟩ := fencing 1 1 none firstHoldOps _ rfl hmax
  refine ⟨_, _, ⟨⟨"first", 0⟩, 1, 1, 10⟩, rfl, by decide, rfl, ?_, ?_⟩
  · exact hacq (.tryAcquireLock "job" .quorum ⟨"second", 0⟩ 10 20) 2
      (show _ = false by decide) (by decide)
  · refine hended "job" _ (.tryAcquireLock "job" .quorum ⟨"second", 0⟩ 10 20)
      [.expireDue 40] _ (by decide) ⟨rfl, rfl, rfl⟩ rfl ⟨by decide, fun s hs ↦ ?_⟩
    cases hs
    exact ⟨by decide, fun _ _ ↦ trivial⟩

end HydraCache.Grid.SingleKeyConditionalStore
