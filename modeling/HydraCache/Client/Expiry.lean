import HydraCache.Client.QuotaLedger
import HydraCache.Client.ReferenceMap

/-!
# Lazy expiry cannot be seen

The client surface keeps an expired entry until a request looks at its key or a sweep finds it. For
every sequence of requests and sweeps its replies are those of the reference map, in which an entry
vanishes at its deadline (`replies_eq_reference`): no reply shows whether an expired entry was still
in the store.

At any time the reference map holds what is live in the store (`reflect`). One event keeps that
(`matches_apply`), whatever the sweep of the event found. For conditional writes this rests on the
conditional store being in line with the live value (`CasAnswer`).

Scope. There is one thing an expired entry does: until it is removed it counts against the quota of
its namespace. So whether a write is refused for the quota does depend on the sweeps
(`quota_refusal_depends_on_sweep`), and the reference map is told of these refusals.
-/

set_option autoImplicit false

namespace HydraCache.Client

open Lib Grid ClientLockService OrderedMap List ReferenceMap

/-! ### Admission does not read the ledger -/

variable {σ : Type*}

namespace ConsumerIsolation

variable {i j : ConsumerIsolation} {client ns key : String}

section

variable (i : ConsumerIsolation) (tenant : Tenant)

theorem checkRate_forgetLedger : i.forgetLedger.checkRate tenant =
      ((i.checkRate tenant).1, (i.checkRate tenant).2.forgetLedger) := by
  unfold checkRate
  dsimp only [forgetLedger]
  split_ifs <;> rfl

theorem checkFairShare_forgetLedger : i.forgetLedger.checkFairShare tenant =
      ((i.checkFairShare tenant).1, (i.checkFairShare tenant).2.forgetLedger) := by
  unfold checkFairShare
  dsimp only [forgetLedger]
  split_ifs <;> rfl

theorem admitRequest_forgetLedger (client : String) : i.forgetLedger.admitRequest client =
      ((i.admitRequest client).1, (i.admitRequest client).2.forgetLedger) := by
  unfold admitRequest
  rw [show i.forgetLedger.roster = i.roster from rfl]
  cases i.roster.tenantOf client with
  | none => rfl
  | some tenant =>
    dsimp only
    rw [checkRate_forgetLedger]
    rcases i.checkRate tenant with ⟨_ | _, j⟩
    · rfl
    · dsimp only
      rw [checkFairShare_forgetLedger]
      rcases j.checkFairShare tenant with ⟨_ | _, k⟩ <;> rfl

theorem admitWrite_forgetLedger (client ns : String) : i.forgetLedger.admitWrite client ns =
      ((i.admitWrite client ns).1, (i.admitWrite client ns).2.forgetLedger) := by
  unfold admitWrite
  rw [admitRequest_forgetLedger]
  rcases i.admitRequest client with ⟨_ | tenant, j⟩
  · rfl
  · dsimp only
    cases tenant.quota ns <;> rfl

theorem beginSubscription_forgetLedger (client : String) : i.forgetLedger.beginSubscription client =
      ((i.beginSubscription client).1, (i.beginSubscription client).2.forgetLedger) := by
  unfold beginSubscription
  rw [admitRequest_forgetLedger]
  rcases i.admitRequest client with ⟨_ | tenant, j⟩
  · rfl
  · dsimp only [forgetLedger]
    split_ifs <;> rfl

theorem forgetLedger_removeEntryForTenant (entryKey : EntryKey) :
    (i.removeEntryForTenant entryKey).2.forgetLedger = i.forgetLedger := by
  unfold removeEntryForTenant
  split_ifs
  · rfl
  · cases i.entries.get entryKey <;> rfl

theorem forgetLedger_removeEntry (client ns key : String) :
    (i.removeEntry client ns key).2.forgetLedger = i.forgetLedger := by
  unfold removeEntry
  cases i.roster.tenantOf client with
  | none => rfl
  | some =>
    dsimp only
    split_ifs
    · rfl
    · exact forgetLedger_removeEntryForTenant i _

end

/-- The quota refuses the write. -/
def isQuotaRejection {α : Type} : Except AdmissionRejection α → Bool
  | .error (.rejectQuota ..) => true
  | _ => false

section

variable (i : ConsumerIsolation)

/-- The admission of a write with a commit, as one without a ledger that is told of the quota. -/
structure AdmitsAs {σ : Type*} (client ns : String)
    (limit : ConsumerIsolationConfig → Option AdmissionRejection) (met : Bool)
    (commit : σ → Bool × σ) (outside : σ)
    (result : Except AdmissionRejection Bool × ConsumerIsolation × σ) : Prop where
  admitted : i.forgetLedger.admitUncharged limit client ns (isQuotaRejection result.1) =
    (result.1.map fun _ ↦ (), result.2.1.forgetLedger)
  refused : ∀ error, result.1 = .error error → result.2.2 = outside
  decided : ∀ committed, result.1 = .ok committed →
    if met then commit outside = (committed, result.2.2)
    else committed = false ∧ result.2.2 = outside

/-- What the ledger says does not matter. -/
theorem admitsAs_admitRows (client ns : String) (met : Bool) (commit : σ → Bool × σ) (outside : σ)
    (limit : ConsumerIsolationConfig → Option AdmissionRejection)
    (rows : TenantId → List (EntryKey × ℕ)) :
    i.AdmitsAs client ns limit met commit outside
      (i.admitRows client ns met commit outside (limit i.config) rows) := by
  have hlimit : limit i.forgetLedger.config = limit i.config := rfl
  unfold admitRows
  cases hexceeded : limit i.config with
  | some =>
    rw [hexceeded] at hlimit
    refine ⟨?_, fun _ _ ↦ rfl, nofun⟩
    rw [admitUncharged, hlimit]
    rfl
  | none =>
    rw [hexceeded] at hlimit
    rcases hwrite : i.admitWrite client ns with ⟨error | ⟨tenant, quota⟩, j⟩
    · refine ⟨?_, fun _ _ ↦ rfl, nofun⟩
      rw [admitUncharged, hlimit, admitWrite_forgetLedger, hwrite]
      rfl
    · -- from here on a refusal is one for the quota, and an admitted write is decided by its commit
      have hadm : i.forgetLedger.admitUncharged limit client ns false =
          (.ok (), j.forgetLedger) := by
        rw [admitUncharged, hlimit, admitWrite_forgetLedger, hwrite]
        rfl
      cases met with
      | false => exact ⟨hadm, nofun, fun _ h ↦ by cases h; exact ⟨rfl, rfl⟩⟩
      | true =>
        dsimp only
        rw [if_pos rfl]
        split
        · refine ⟨?_, fun _ _ ↦ rfl, nofun⟩
          rw [admitUncharged, hlimit, admitWrite_forgetLedger, hwrite]
          rfl
        · rcases hcom : commit outside with ⟨_ | _, outside'⟩
          all_goals exact ⟨hadm, nofun, fun _ h ↦ by cases h; exact hcom⟩

theorem admitsAs_put (client ns key : String) (valueBytes : ℕ) (met : Bool) (commit : σ → Bool × σ)
    (outside : σ) :
    i.AdmitsAs client ns (putLimit valueBytes) met commit outside
      (i.admitPutIfCommitted client ns key valueBytes met commit outside) := by
  rw [admitPutIfCommitted_eq]
  apply admitsAs_admitRows

theorem admitsAs_batchPut (client ns : String) (entries : List (String × ℕ)) (commit : σ → Bool × σ)
    (outside : σ) :
    i.AdmitsAs client ns (batchLimit (entries.map Prod.snd)) true commit outside
      (i.admitBatchPutIfCommitted client ns entries commit outside) := by
  rw [admitBatchPutIfCommitted_eq]
  apply admitsAs_admitRows

end

end ConsumerIsolation

open ConsumerIsolation

/-! ### Entries that vanish -/

theorem StoredValue.isExpired_of_le {entry : StoredValue} {a b : ℕ} (h : a ≤ b)
    (hexp : entry.isExpired a = true) : entry.isExpired b = true := by
  rw [isExpired, Option.any_eq_true] at hexp ⊢
  obtain ⟨expiresAtMs, hsome, hle⟩ := hexp
  exact ⟨expiresAtMs, hsome, decide_eq_true ((of_decide_eq_true hle).trans h)⟩

section Vanish

variable {nowMs : ℕ} {store : Store} {key : EntryKey}

section

variable (nowMs : ℕ) (store : Store) (key : EntryKey)

theorem get_vanish :
    (vanish nowMs store).get key = (store.get key).filter fun entry ↦ !entry.isExpired nowMs :=
  store.get_filter _ key

/-- What has vanished stays away. -/
theorem vanish_vanish {a b : ℕ} (h : a ≤ b) (store : Store) :
    vanish b (vanish a store) = vanish b store := by
  refine ext_get fun key ↦ ?_
  rw [get_vanish, get_vanish, get_vanish, Option.filter_filter]
  congr 1
  funext entry
  cases ha : entry.isExpired a with
  | false => rw [Bool.not_false, Bool.true_and]
  | true => rw [StoredValue.isExpired_of_le h ha, Bool.not_true, Bool.false_and]

theorem vanish_set (entry : Option StoredValue) :
    vanish nowMs ((vanish nowMs store).set key entry) = vanish nowMs (store.set key entry) := by
  unfold vanish
  rw [filter_set, filter_set]
  exact congrArg (set · key _) (vanish_vanish le_rfl store)

theorem vanish_insertAll (rows : List (EntryKey × StoredValue)) :
    vanish nowMs ((vanish nowMs store).insertAll rows) = vanish nowMs (store.insertAll rows) := by
  induction rows generalizing store with
  | nil => exact vanish_vanish le_rfl store
  | cons row rows ih =>
    have hrow := vanish_set nowMs store row.1 (some row.2)
    change vanish nowMs (((vanish nowMs store).set row.1 (some row.2)).insertAll rows) =
      vanish nowMs ((store.set row.1 (some row.2)).insertAll rows)
    rw [← ih, hrow, ih]

theorem vanish_retain (keep : EntryKey → Bool) :
    vanish nowMs (store.retain keep) = (vanish nowMs store).retain keep := by
  refine ext_get fun key ↦ ?_
  rw [get_vanish, get_retain, get_retain, get_vanish]
  split_ifs <;> rfl

end

/-- Assumes: no live entry under the key. Nothing that shows is removed. -/
theorem vanish_remove (h : (vanish nowMs store).get key = none) :
    vanish nowMs (store.remove key) = vanish nowMs store := by
  have hset := vanish_set nowMs store key none
  rw [← h, set_get, vanish_vanish le_rfl, h] at hset
  exact hset.symm

/-- A request finds the entry that is live, and removes nothing that shows. -/
theorem liveEntry_spec (store : Store) (key : EntryKey) (nowMs : ℕ) :
    (liveEntry store key nowMs).1 = (vanish nowMs store).get key ∧
      vanish nowMs (liveEntry store key nowMs).2.2 = vanish nowMs store := by
  unfold liveEntry
  have hget := get_vanish nowMs store key
  cases hentry : store.get key with
  | none =>
    rw [hentry] at hget
    exact ⟨hget.symm, rfl⟩
  | some entry =>
    rw [hentry, Option.filter_some] at hget
    rw [Option.any_some]
    cases hexp : entry.isExpired nowMs with
    | false =>
      rw [hexp] at hget
      exact ⟨hget.symm, rfl⟩
    | true =>
      rw [hexp] at hget
      exact ⟨hget.symm, vanish_remove hget⟩

/-- The expired entries that a sweep finds do not show. -/
theorem get_vanish_of_mem_candidates {cursor : Option EntryKey} {scanLimit : ℕ}
    {captureCursor : Bool}
    (h : key ∈ (expirySweepCandidates store nowMs cursor scanLimit captureCursor).1) :
    (vanish nowMs store).get key = none := by
  obtain ⟨row, hrow, rfl⟩ := mem_map.mp h
  obtain ⟨hexamined, hexp⟩ := mem_filter.mp hrow
  have hmem : row ∈ store.rows := by
    cases cursor with
    | none => exact mem_of_mem_take hexamined
    | some =>
      rcases mem_append.mp hexamined with hafter | hpre
      · exact mem_of_mem_filter (mem_of_mem_take hafter)
      · exact mem_of_mem_filter (mem_of_mem_take hpre)
  rw [get_vanish, store.get_eq_some_iff.mpr hmem, Option.filter_some, hexp]
  rfl

end Vanish

namespace ClientSurfaceState

variable {s : ClientSurfaceState} {identity : ClientIdentity} {ns key : String}

/-! ### What a surface shows -/

section

variable (s : ClientSurfaceState)

/-- The reference map that holds what is live in the store. -/
def reflect : ReferenceMap where
  limits := s.limits
  map := vanish s.cacheTimeFloorMs s.store
  clockMs := s.cacheTimeFloorMs
  idempotencyKeys := s.idempotencyKeys
  lockService := s.lockService
  auditEvents := s.auditEvents
  isolation := s.isolation.map forgetLedger

theorem reflect_limits : s.reflect.limits = s.limits := rfl

theorem reflect_isolation : s.reflect.isolation = s.isolation.map forgetLedger := rfl

theorem readClock_reflect (systemMs : ℕ) :
    s.reflect.readClock systemMs = ((s.nowMs systemMs).1, (s.nowMs systemMs).2.reflect) := by
  have hmap := vanish_vanish (le_max_right systemMs s.cacheTimeFloorMs) s.store
  unfold readClock
  dsimp only [reflect]
  rw [hmap]
  rfl

end

/-- Assumes: a store in which the same is live, and another ledger. -/
theorem reflect_congr {store : Store} {isolation : Option ConsumerIsolation}
    (hstore : vanish s.cacheTimeFloorMs store = vanish s.cacheTimeFloorMs s.store)
    (hiso : isolation.map forgetLedger = s.isolation.map forgetLedger) :
    { s with store, isolation }.reflect = s.reflect := by
  unfold reflect
  rw [hstore, hiso]

theorem reflect_releaseEntry (s : ClientSurfaceState) (identity : ClientIdentity)
    (ns key : String) :
    (s.releaseEntry identity ns key).reflect = s.reflect := by
  refine reflect_congr rfl ?_
  rw [Option.map_map]
  refine Option.map_congr fun isolation _ ↦ ?_
  exact isolation.forgetLedger_removeEntry identity.clientId ns key

theorem reflect_ite_releaseEntry (s : ClientSurfaceState) (expired : Bool)
    (identity : ClientIdentity) (ns key : String) :
    (if expired then s.releaseEntry identity ns key else s).reflect = s.reflect := by
  cases expired with
  | false => rfl
  | true => exact reflect_releaseEntry s identity ns key

theorem reflect_dropExpired {key : EntryKey} (h : s.reflect.map.get key = none) :
    (s.dropExpired key).reflect = s.reflect := by
  refine reflect_congr (vanish_remove h) ?_
  rw [Option.map_map]
  exact Option.map_congr fun isolation _ ↦ isolation.forgetLedger_removeEntryForTenant key

/-- It does not show when the next sweep runs, and where it starts. -/
theorem reflect_sweepState (s : ClientSurfaceState) (nextExpirySweepMs : ℕ)
    (expirySweepCursor : Option EntryKey) :
    { s with nextExpirySweepMs, expirySweepCursor }.reflect = s.reflect := rfl

theorem reflect_foldl_dropExpired {keys : List EntryKey}
    (h : ∀ key ∈ keys, s.reflect.map.get key = none) :
    (keys.foldl dropExpired s).reflect = s.reflect := by
  induction keys generalizing s with
  | nil => rfl
  | cons key _ ih =>
    have hkey := reflect_dropExpired (h key mem_cons_self)
    rw [foldl_cons, ih, hkey]
    intro other hother
    rw [hkey]
    exact h other (mem_cons_of_mem _ hother)

/-- A sweep removes only what does not show. -/
theorem reflect_sweepExpiredEntries (s : ClientSurfaceState) (force : Bool) :
    (s.sweepExpiredEntries s.cacheTimeFloorMs force).reflect = s.reflect := by
  unfold sweepExpiredEntries
  split
  · rfl
  · dsimp only
    generalize hfound : expirySweepCandidates _ _ _ _ _ = found
    obtain ⟨expired, nextCursor⟩ := found
    refine (reflect_sweepState _ _ _).trans (reflect_foldl_dropExpired fun key hkey ↦ ?_)
    rw [← congrArg Prod.fst hfound] at hkey
    exact get_vanish_of_mem_candidates hkey

/-! ### Requests about one entry -/

/-- The reference map gives the answer of the surface and goes on to what the surface shows then,
and the conditional store of the surface stays in order. -/
structure Matches {α : Type} (surface : α × ClientSurfaceState) (reference : α × ReferenceMap) :
    Prop where
  answer : reference.1 = surface.1
  state : reference.2 = surface.2.reflect
  coverable : Coverable surface.2.lockService.store.recordState

theorem Matches.map {α β : Type} {surface : α × ClientSurfaceState} {reference : α × ReferenceMap}
    (h : Matches surface reference) (f : α → β) :
    Matches (f surface.1, surface.2) (f reference.1, reference.2) :=
  ⟨congrArg f h.answer, h.state, h.coverable⟩

theorem Matches.releaseEntry {α : Type} {answer : α} {reference : α × ReferenceMap}
    (h : Matches (answer, s) reference) (expired : Bool) (identity : ClientIdentity)
    (ns key : String) :
    Matches (answer, if expired then s.releaseEntry identity ns key else s) reference where
  answer := h.answer
  state := h.state.trans (reflect_ite_releaseEntry ..).symm
  coverable := by
    cases expired <;> exact h.coverable

section Coverable

variable (hs : Coverable s.lockService.store.recordState)
include hs

variable {α : Type} {met : Bool} {i : ConsumerIsolation} {surface : Reply × ClientSurfaceState}
  {reference : Reply × ReferenceMap} {live : Option SealedBytes} {answer : Reply} {β : Type}

/-- Assumes: an action of the reference map that matches the one of the surface. -/
theorem matches_withAdmittedStore {act : ClientSurfaceState → α × ClientSurfaceState}
    {act' : ReferenceMap → α × ReferenceMap}
    (hact : ∀ s', s'.cacheTimeFloorMs = s.cacheTimeFloorMs →
      Coverable s'.lockService.store.recordState → Matches (act s') (act' s'.reflect)) :
    Matches (s.withAdmittedStore identity act) (s.reflect.withAdmitted identity act') := by
  unfold withAdmittedStore withAdmitted
  rw [reflect_isolation]
  cases hiso : s.isolation with
  | none => exact (hact s rfl hs).map Except.ok
  | some isolation =>
    dsimp only [Option.map_some]
    rw [isolation.admitRequest_forgetLedger]
    rcases isolation.admitRequest identity.clientId with ⟨_ | tenant, j⟩
    · exact ⟨rfl, rfl, hs⟩
    · exact (hact { s with isolation := some j } rfl hs).map Except.ok

/-- The action keeps the conditional store in order. -/
def KeepsCoverable {α : Type} (action : EntryAction α) : Prop :=
  ∀ entry locks, Coverable locks.store.recordState →
    Coverable (action entry locks).2.2.store.recordState

theorem matches_onLiveEntry {action action' : EntryAction α} (hkeeps : KeepsCoverable action)
    (heq : ∀ entry locks, Coverable locks.store.recordState →
      action' entry locks = action entry locks) :
    Matches (onLiveEntry identity ns key s.cacheTimeFloorMs action s)
      (s.reflect.actOn (identity.storeKey ns key) action') := by
  obtain ⟨hentry, hstore⟩ := liveEntry_spec s.store (identity.storeKey ..) s.cacheTimeFloorMs
  unfold onLiveEntry actOn
  dsimp only
  generalize liveEntry s.store _ _ = found at hentry hstore ⊢
  obtain ⟨entry, expired, store⟩ := found
  dsimp only at hentry hstore ⊢
  rw [show s.reflect.map.get _ = entry from hentry.symm,
    show action' entry s.reflect.lockService = action entry s.lockService from heq entry _ hs]
  have hlocks := hkeeps entry _ hs
  generalize action entry s.lockService = acted at hlocks ⊢
  obtain ⟨answer, change, lockService⟩ := acted
  refine Matches.releaseEntry ?_ ..
  refine ⟨rfl, congrArg (fun map ↦ { s.reflect with lockService, map }) ?_, hlocks⟩
  change vanish _ ((vanish s.cacheTimeFloorMs s.store).set _ _) = vanish s.cacheTimeFloorMs _
  rw [← hstore]
  cases change with
  | keep =>
    change vanish s.cacheTimeFloorMs (set _ _ entry) = vanish s.cacheTimeFloorMs store
    rw [hentry, ← hstore, set_get, vanish_vanish le_rfl]
  | update entry => exact vanish_set _ store _ (some entry)
  | remove => exact vanish_set _ store _ none

/-- Assumes: an action that keeps the conditional store in order, and one of the reference map that
does the same. Requests with these actions match. -/
theorem matches_onEntry (action : ℕ → EntryAction α) {action' : ℕ → EntryAction α}
    (hkeeps : ∀ nowMs, KeepsCoverable (action nowMs))
    (heq : ∀ nowMs entry locks, Coverable locks.store.recordState →
      action' nowMs entry locks = action nowMs entry locks)
    (respond : Except ClientErrorEnvelope α → Reply) (clock : ℕ) :
    Matches (let (nowMs, s) := s.nowMs clock
      let (acted, s) := s.withLiveEntry identity ns key nowMs (action nowMs)
      (respond acted, s))
      (s.reflect.onEntry identity ns key clock action' respond) := by
  rw [onEntry, readClock_reflect]
  have hadm : Matches
      ((s.nowMs clock).2.withLiveEntry identity ns key (s.nowMs clock).1 (action (s.nowMs clock).1))
      ((s.nowMs clock).2.reflect.withAdmitted identity
        (actOn (identity.storeKey ns key) (action' (s.nowMs clock).1))) := by
    refine matches_withAdmittedStore (s := (s.nowMs clock).2) hs fun s' hclock hs' ↦ ?_
    rw [show (s.nowMs clock).1 = s'.cacheTimeFloorMs from hclock.symm]
    exact matches_onLiveEntry hs' (hkeeps _) (heq _)
  exact hadm.map respond

omit hs in
/-- Assumes: the answer of a conditional write on the live value. It is the answer that the live
value decides. -/
theorem decided_of_casAnswer (h : CasAnswer met live answer) :
    decided met live answer = answer ∧ (met && answer.isOk) = isCasApplied answer := by
  cases h with
  | failed => exact ⟨rfl, Bool.and_false met⟩
  | applied _ hmet | mismatch hmet =>
    rw [hmet]
    exact ⟨rfl, rfl⟩

omit hs in
theorem decidedRemove_eq (lockKey : Key) (expected : SealedBytes) (level : ConsistencyLevel)
    (entry : Option StoredValue) {locks : ClientLockService}
    (h : Coverable locks.store.recordState) :
    decidedRemove lockKey expected level entry locks =
      removeIfValueAction lockKey expected level entry locks := by
  obtain ⟨hans, happ⟩ := decided_of_casAnswer (casAnswer_applyRemoveIfValue
    h lockKey (entry.map fun entry ↦ entry.value) expected level)
  unfold decidedRemove removeIfValueAction
  dsimp only
  rw [hans, happ]

/-- Assumes: a request that matches. It does so too if it is refused for the size of its expected
value. -/
theorem matches_boundExpected {expectedValue : SealedBytes} (h : Matches surface reference) :
    Matches
      (if s.limits.maxValueBytes < expectedValue.length then
        (.error (tooLarge "expected value too large"), s)
      else surface)
      (s.reflect.boundExpected expectedValue reference) := by
  rw [boundExpected, reflect_limits]
  split_ifs
  · exact ⟨rfl, rfl, hs⟩
  · exact h

/-! ### Removals and batches of reads -/

theorem matches_handleInvalidate :
    Matches (s.handleInvalidate identity ns key) (s.reflect.invalidate identity ns key) := by
  unfold handleInvalidate invalidate
  dsimp only
  refine Matches.map (matches_withAdmittedStore hs fun s' _ hs' ↦ ?_) fun done ↦
    done.map fun _ ↦ ClientResponse.invalidated
  refine Matches.releaseEntry ?_ ..
  exact ⟨rfl, congrArg (fun map ↦ { s'.reflect with map }) (vanish_set ..), hs'⟩

omit hs in
theorem batchGetItems_spec (storeKey : String → EntryKey) (nowMs : ℕ) (keys : List String)
    (store : Store) :
    (batchGetItems storeKey nowMs keys store).1 =
        (keys.map fun key ↦ ((vanish nowMs store).get (storeKey key)).map fun entry ↦ entry.value) ∧
      vanish nowMs (batchGetItems storeKey nowMs keys store).2.2 = vanish nowMs store := by
  induction keys generalizing store with
  | nil => exact ⟨rfl, rfl⟩
  | cons key _ ih =>
    obtain ⟨hentry, hstore⟩ := liveEntry_spec store (storeKey key) nowMs
    obtain ⟨hvals, hrest⟩ := ih (liveEntry store (storeKey key) nowMs).2.2
    rw [hstore] at hvals hrest
    refine ⟨?_, hrest⟩
    rw [map_cons, ← hentry, ← hvals]
    rfl

omit hs in
theorem matches_foldl_releaseEntry {answer : α} {reference : α × ReferenceMap}
    (h : Matches (answer, s) reference) (identity : ClientIdentity) (ns : String)
    (keys : List String) :
    Matches (answer, keys.foldl (fun s key ↦ s.releaseEntry identity ns key) s) reference := by
  induction keys generalizing s with
  | nil => exact h
  | cons key _ ih => exact ih (h.releaseEntry true identity ns key)

theorem matches_handleBatchGet (keys : List String) (clock : ℕ) :
    Matches (s.handleBatchGet identity ns keys clock)
      (s.reflect.batchGet identity ns keys clock) := by
  unfold handleBatchGet batchGet
  rw [reflect_limits]
  split_ifs
  · exact ⟨rfl, rfl, hs⟩
  · exact ⟨rfl, rfl, hs⟩
  · rw [readClock_reflect]
    dsimp only
    refine Matches.map (matches_withAdmittedStore (s := (s.nowMs clock).2) hs
      fun s' hclock hs' ↦ ?_) fun values ↦ values.map ..
    rw [show (s.nowMs clock).1 = s'.cacheTimeFloorMs from hclock.symm]
    obtain ⟨hvals, hstore⟩ :=
      batchGetItems_spec (identity.storeKey ns) s'.cacheTimeFloorMs ..
    refine matches_foldl_releaseEntry ?_ ..
    exact ⟨hvals.symm, (reflect_congr hstore rfl).symm, hs'⟩

theorem matches_handleEvictRegion :
    Matches (s.handleEvictRegion identity ns) (s.reflect.evictRegion identity ns) := by
  have hmap := vanish_retain s.cacheTimeFloorMs s.store fun key ↦ !key.isIn identity.tenant ns
  unfold handleEvictRegion evictRegion withAdmitted
  rw [reflect_isolation]
  cases hiso : s.isolation with
  | none =>
    refine ⟨rfl, ?_, hs⟩
    dsimp only [Option.map_none]
    rw [← hiso]
    exact congrArg (fun map ↦ { s.reflect with map }) hmap.symm
  | some isolation =>
    dsimp only [Option.map_some, evictNamespace]
    rw [isolation.admitRequest_forgetLedger]
    rcases isolation.admitRequest identity.clientId with ⟨_ | tenant, j⟩
    · exact ⟨rfl, rfl, hs⟩
    · exact ⟨rfl, congrArg (fun map ↦ { s.reflect with map, isolation := some j.forgetLedger })
        hmap.symm, hs⟩

theorem matches_handleSubscribe (start : Option Watermark) :
    Matches (s.handleSubscribe identity start) (s.reflect.subscribe identity start) := by
  unfold handleSubscribe subscribe
  rw [reflect_isolation]
  cases s.isolation with
  | none => exact ⟨rfl, rfl, hs⟩
  | some isolation =>
    dsimp only [Option.map_some]
    rw [isolation.beginSubscription_forgetLedger]
    exact ⟨rfl, rfl, hs⟩

/-! ### Admitted writes -/

omit hs in
theorem isQuotaRefusal_admissionError (error : AdmissionRejection) :
    isQuotaRefusal (.error (admissionError error) : Except ClientErrorEnvelope α) =
      isQuotaRejection (.error error : Except AdmissionRejection β) := by
  cases error <;> rfl

omit hs in
theorem isQuotaRefusal_mapError (admitted : Except AdmissionRejection α) :
    isQuotaRefusal (admitted.mapError admissionError) = isQuotaRejection admitted := by
  cases admitted with
  | ok => rfl
  | error error => exact isQuotaRefusal_admissionError error

omit hs in
theorem isQuotaRefusal_map (reply : Except ClientErrorEnvelope α) (f : α → β) :
    isQuotaRefusal (reply.map f) = isQuotaRefusal reply := by
  cases reply <;> rfl

omit hs in
theorem admitWrite_reflect_of_none (hiso : s.isolation = none)
    (limit : ConsumerIsolationConfig → Option AdmissionRejection) (refused : Bool) :
    s.reflect.admitWrite identity ns limit refused = (.ok (), s.reflect) := by
  rw [ReferenceMap.admitWrite, reflect_isolation, hiso]
  rfl

omit hs in
/-- Assumes: an admission with a commit. The reference map admits the same, if it is told of the
quota. -/
theorem admitWrite_reflect {limit : ConsumerIsolationConfig → Option AdmissionRejection}
    {commit : σ → Bool × σ} {outside : σ}
    {result : Except AdmissionRejection Bool × ConsumerIsolation × σ} (hiso : s.isolation = some i)
    (h : i.AdmitsAs identity.clientId ns limit met commit outside result) :
    s.reflect.admitWrite identity ns limit (isQuotaRejection result.1) =
      ((result.1.map fun _ ↦ ()).mapError admissionError,
        { s with isolation := some result.2.1 }.reflect) := by
  rw [ReferenceMap.admitWrite, reflect_isolation, hiso]
  dsimp only [Option.map_some]
  rw [h.admitted]
  rfl

omit hs in
/-- The surface after an entry was written to its store. -/
theorem reflect_insert (s : ClientSurfaceState) (key : EntryKey) (entry : StoredValue) :
    s.reflect.write key (some entry) = { s with store := s.store.insert key entry }.reflect :=
  congrArg (fun map ↦ { s.reflect with map }) (vanish_set _ s.store key (some entry))

theorem matches_admitPut (entry : StoredValue) (met : Bool) :
    Matches (s.admitPut identity ns key entry met)
      (s.reflect.putEntry identity ns key entry met
        (isQuotaRefusal (s.admitPut identity ns key entry met).1)) := by
  unfold admitPut putEntry
  cases hiso : s.isolation with
  | none =>
    rw [admitWrite_reflect_of_none hiso]
    cases met with
    | false => exact ⟨rfl, rfl, hs⟩
    | true => exact ⟨rfl, reflect_insert .., hs⟩
  | some i =>
    dsimp only
    have h := i.admitsAs_put identity.clientId ns key entry.value.length met
      (fun s ↦ (true, { s with store := s.store.insert (identity.storeKey ns key) entry })) s
    rw [isQuotaRefusal_mapError, admitWrite_reflect hiso h]
    generalize i.admitPutIfCommitted _ _ _ _ _ _ _ = result at h ⊢
    obtain ⟨error | committed, j, outside⟩ := result
    · obtain rfl : outside = s := h.refused error rfl
      exact ⟨rfl, rfl, hs⟩
    · have hdec := h.decided committed rfl
      cases met with
      | false =>
        obtain ⟨rfl, rfl⟩ : committed = false ∧ outside = s := hdec
        exact ⟨rfl, rfl, hs⟩
      | true =>
        cases hdec
        exact ⟨rfl, reflect_insert { s with isolation := some j } _ entry, hs⟩

theorem matches_handleBatchPut (entries : List BatchPutEntry) :
    Matches (s.handleBatchPut identity ns entries)
      (s.reflect.batchPut identity ns entries
        (isQuotaRefusal (s.handleBatchPut identity ns entries).1)) := by
  have hwrite : ∀ s : ClientSurfaceState,
      { s.reflect with
        map :=
          vanish s.cacheTimeFloorMs (s.reflect.map.insertAll (batchEntries identity ns entries)) } =
      { s with store := s.store.insertAll (batchEntries identity ns entries) }.reflect := fun s ↦
    congrArg (fun map ↦ { s.reflect with map }) (vanish_insertAll ..)
  unfold handleBatchPut batchPut
  rw [reflect_limits]
  cases batchPutError s.limits entries with
  | some => exact ⟨rfl, rfl, hs⟩
  | none =>
    cases hiso : s.isolation with
    | none =>
      rw [admitWrite_reflect_of_none hiso]
      exact ⟨rfl, hwrite s, hs⟩
    | some i =>
      dsimp only
      have h := i.admitsAs_batchPut identity.clientId ns
        (entries.map fun entry ↦ (entry.key, entry.value.length))
        (fun s : ClientSurfaceState ↦
          (true, { s with store := s.store.insertAll (batchEntries identity ns entries) })) s
      rw [show (entries.map fun entry ↦ (entry.key, entry.value.length)).map Prod.snd =
        entries.map fun entry ↦ entry.value.length from map_map] at h
      rw [isQuotaRefusal_map, isQuotaRefusal_mapError, admitWrite_reflect hiso h]
      generalize i.admitBatchPutIfCommitted _ _ _ _ _ = result at h ⊢
      obtain ⟨error | committed, j, outside⟩ := result
      · obtain rfl : outside = s := h.refused error rfl
        exact ⟨rfl, rfl, hs⟩
      · cases h.decided committed rfl
        exact ⟨rfl, hwrite { s with isolation := some j }, hs⟩

omit hs in
theorem reflect_idempotencyKeys (s : ClientSurfaceState) (idempotencyKeys : IdempotencyTable) :
    { s.reflect with idempotencyKeys } = { s with idempotencyKeys }.reflect := rfl

theorem matches_handlePut
    (idempotencyKey : Option String) (value : SealedBytes) (ttlMs : Option ℕ) (clock : ℕ) :
    Matches (s.handlePut identity idempotencyKey ns key value ttlMs clock)
      (s.reflect.put identity idempotencyKey ns key value ttlMs clock
        (isQuotaRefusal (s.handlePut identity idempotencyKey ns key value ttlMs clock).1)) := by
  unfold handlePut put
  rw [reflect_limits]
  split_ifs
  · exact ⟨rfl, rfl, hs⟩
  · rw [readClock_reflect]
    cases idempotencyKey with
    | none =>
      rw [isQuotaRefusal_map]
      exact (matches_admitPut (s := (s.nowMs clock).2) hs _ true).map fun admitted ↦
        admitted.map fun _ ↦ ClientResponse.stored
    | some =>
      dsimp only
      rw [show (s.nowMs clock).2.reflect.idempotencyKeys =
        (s.nowMs clock).2.idempotencyKeys from rfl]
      rcases checkIdempotency _ _ _ with ⟨_ | reply, idempotencyKeys⟩
      · have h := @matches_admitPut { (s.nowMs clock).2 with idempotencyKeys } identity ns key hs
          (.stored value (s.nowMs clock).1 ttlMs) true
        dsimp only
        rw [reflect_idempotencyKeys]
        generalize admitPut _ _ _ _ _ _ = result at h ⊢
        obtain ⟨error | committed, s'⟩ := result
        all_goals
          dsimp only [isQuotaRefusal] at h ⊢
          generalize putEntry _ _ _ _ _ _ _ = reference at h ⊢
          obtain ⟨answer, r⟩ := reference
          obtain ⟨rfl, rfl, hcoverable⟩ := h
          exact ⟨rfl, rfl, hcoverable⟩
      · exact ⟨rfl, rfl, hs⟩

theorem matches_handleConditionalPut (value : SealedBytes) (ttlMs : Option ℕ)
    (condition : ConditionalPutCondition) (clock : ℕ) :
    Matches (s.handleConditionalPut identity ns key value ttlMs condition clock)
      (s.reflect.conditionalPut identity ns key value ttlMs condition clock
        (isQuotaRefusal
          (s.handleConditionalPut identity ns key value ttlMs condition clock).1)) := by
  unfold handleConditionalPut conditionalPut
  rw [reflect_limits]
  split_ifs
  · exact ⟨rfl, rfl, hs⟩
  · exact ⟨rfl, rfl, hs⟩
  · rw [readClock_reflect]
    dsimp only
    obtain ⟨hentry, hstore⟩ := liveEntry_spec (s.nowMs clock).2.store (identity.storeKey ..)
      (s.nowMs clock).1
    generalize liveEntry _ _ _ = found at hentry hstore ⊢
    obtain ⟨entry, expired, store⟩ := found
    rw [isQuotaRefusal_map, show (s.nowMs clock).2.reflect.map.get _ = entry from hentry.symm,
      ← reflect_congr (s := (s.nowMs clock).2) hstore rfl]
    refine Matches.releaseEntry ?_ ..
    exact (matches_admitPut (s := { (s.nowMs clock).2 with store }) hs _ _).map
      fun admitted ↦ admitted.map ..

/-! ### Compare-and-set -/

omit hs in
theorem isQuotaRefusal_of_casAnswer
    (h : CasAnswer met live answer) : isQuotaRefusal answer = false := by
  cases h with
  | failed hcode => exact decide_eq_false hcode
  | applied | mismatch => rfl

section CompareAndSet

variable {expected : CasExpectation} {newValue : SealedBytes} {level : LockConsistency}

theorem matches_compareAndSet :
    Matches (s.compareAndSet identity ns key live expected newValue level)
      (s.reflect.decideCas identity ns key live expected newValue level) := by
  obtain ⟨hans, happ⟩ := decided_of_casAnswer (casAnswer_applyCompareAndSet
    hs (identity.lockKey ..) live expected newValue (lockConsistency level))
  have hlocks := coverable_applyCompareAndSet hs (identity.lockKey ns key) live
    expected newValue (lockConsistency level)
  unfold compareAndSet decideCas
  rw [show s.reflect.lockService = s.lockService from rfl]
  generalize s.lockService.applyCompareAndSet _ _ _ _ _ = acted at hans happ hlocks ⊢
  obtain ⟨answer, lockService⟩ := acted
  dsimp only at hans happ hlocks ⊢
  rw [hans, happ]
  cases isCasApplied answer with
  | false => exact ⟨rfl, rfl, hlocks⟩
  | true => exact ⟨rfl, reflect_insert { s with lockService } _ _, hlocks⟩

/-- Assumes: a live value that is not as expected. The conditional store answers, and nothing is
stored. -/
theorem compareAndSet_of_unmet (hunmet : expected.holds live = false) :
    s.compareAndSet identity ns key live expected newValue level =
      ((s.lockService.applyCompareAndSet (identity.lockKey ns key) live expected newValue
          (lockConsistency level)).1,
        { s with
          lockService :=
            (s.lockService.applyCompareAndSet (identity.lockKey ns key) live expected newValue
            (lockConsistency level)).2 }) := by
  obtain ⟨-, happ⟩ := decided_of_casAnswer (casAnswer_applyCompareAndSet
    hs (identity.lockKey ..) live expected newValue (lockConsistency level))
  rw [hunmet, Bool.false_and] at happ
  unfold compareAndSet
  dsimp only
  rw [if_neg (Bool.eq_false_iff.mp happ.symm)]

theorem matches_admitCompareAndSet (hiso : s.isolation = some i) (expired : Bool) :
    Matches (s.admitCompareAndSet i identity ns key live expired expected newValue level)
      (match s.reflect.admitWrite identity ns (putLimit newValue.length)
        (isQuotaRefusal
          (s.admitCompareAndSet i identity ns key live expired expected newValue level).1) with
      | (.error error, r) => (.error error, r)
      | (.ok (), r) => r.decideCas identity ns key live expected newValue level) := by
  have hans := casAnswer_applyCompareAndSet hs (identity.lockKey ns key) live
    expected newValue (lockConsistency level)
  have h := i.admitsAs_put identity.clientId ns key newValue.length true
    (fun outside : Reply × ClientSurfaceState ↦
      (isCasApplied (outside.2.compareAndSet identity ns key live expected newValue level).1,
        outside.2.compareAndSet identity ns key live expected newValue level))
    (.ok (.casMismatch live), s)
  have hadmit := admitWrite_reflect hiso h
  unfold admitCompareAndSet
  dsimp only at h hadmit ⊢
  generalize i.admitPutIfCommitted _ _ _ _ _ _ _ = result at h hadmit ⊢
  obtain ⟨error | committed, j, reply, outside⟩ := result
  · obtain ⟨-, rfl⟩ := Prod.mk.inj (h.refused error rfl)
    rw [isQuotaRefusal_admissionError, hadmit]
    refine Matches.releaseEntry ?_ ..
    exact ⟨rfl, rfl, hs⟩
  · -- the commit has run, and only the isolation of the surface has changed since
    obtain ⟨-, hcom⟩ := Prod.mk.inj (h.decided committed rfl)
    obtain rfl : reply = (s.compareAndSet identity ns key live expected newValue level).1 :=
      (congrArg Prod.fst hcom).symm
    obtain rfl : outside = (s.compareAndSet identity ns key live expected newValue level).2 :=
      (congrArg Prod.snd hcom).symm
    dsimp only at hadmit ⊢
    rw [show isQuotaRefusal (s.compareAndSet ..).1 = false from isQuotaRefusal_of_casAnswer hans]
    rw [show s.reflect.admitWrite identity ns _ false = _ from hadmit]
    exact Matches.releaseEntry (matches_compareAndSet (s := { s with isolation := some j }) hs) _
      identity ns key

/-- Assumes: a live value that is not as expected. -/
theorem matches_rejectCompareAndSet (hiso : s.isolation = some i)
    (hunmet : expected.holds live = false) (expired : Bool) :
    Matches (s.rejectCompareAndSet i identity ns key live expired expected newValue level)
      (match s.reflect.admitWrite identity ns (putLimit newValue.length)
        (isQuotaRefusal
          (s.rejectCompareAndSet i identity ns key live expired expected newValue level).1) with
      | (.error error, r) => (.error error, r)
      | (.ok (), r) => r.decideCas identity ns key live expected newValue level) := by
  have h := i.admitsAs_put identity.clientId ns key newValue.length false
    (fun s : ClientSurfaceState ↦ (false, s)) s
  have hadmit := admitWrite_reflect hiso h
  unfold rejectCompareAndSet
  generalize i.admitPutIfCommitted _ _ _ _ _ _ _ = result at h hadmit ⊢
  obtain ⟨error | committed, j, outside⟩ := result
  · obtain rfl := h.refused error rfl
    rw [isQuotaRefusal_admissionError, hadmit]
    refine Matches.releaseEntry ?_ ..
    exact ⟨rfl, rfl, hs⟩
  · obtain ⟨rfl, rfl⟩ : committed = false ∧ outside = s := h.decided committed rfl
    -- the entry is released before the conditional store answers
    have hrel :=
      reflect_ite_releaseEntry { outside with isolation := some j } expired identity ns key
    dsimp only at hadmit hrel ⊢
    generalize (if expired = true then _ else _ : ClientSurfaceState) = s' at hrel ⊢
    have hs' : Coverable s'.lockService.store.recordState := by
      rwa [show s'.lockService = outside.lockService from congrArg ReferenceMap.lockService hrel]
    have hans := casAnswer_applyCompareAndSet hs' (identity.lockKey ns key) live
      expected newValue (lockConsistency level)
    rw [isQuotaRefusal_of_casAnswer hans]
    rw [show outside.reflect.admitWrite identity ns _ false = _ from hadmit, ← hrel,
      ← compareAndSet_of_unmet hs' hunmet]
    exact matches_compareAndSet hs'

end CompareAndSet

theorem matches_handleCompareAndSet (expected : CasExpectation) (newValue : SealedBytes)
    (level : LockConsistency) (clock : ℕ) :
    Matches (s.handleCompareAndSet identity ns key expected newValue level clock)
      (s.reflect.compareAndSet identity ns key expected newValue level clock
        (isQuotaRefusal
          (s.handleCompareAndSet identity ns key expected newValue level clock).1)) := by
  unfold handleCompareAndSet ReferenceMap.compareAndSet
  rw [reflect_limits]
  split
  · exact ⟨rfl, rfl, hs⟩
  · rw [readClock_reflect]
    dsimp only
    obtain ⟨hentry, hstore⟩ := liveEntry_spec (s.nowMs clock).2.store (identity.storeKey ..)
      (s.nowMs clock).1
    generalize liveEntry _ _ _ = found at hentry hstore ⊢
    obtain ⟨entry, expired, store⟩ := found
    rw [show (s.nowMs clock).2.reflect.map.get _ = entry from hentry.symm,
      ← reflect_congr (s := (s.nowMs clock).2) hstore rfl]
    cases hiso : (s.nowMs clock).2.isolation with
    | none =>
      rw [admitWrite_reflect_of_none rfl]
      refine matches_compareAndSet ?_
      exact hs
    | some i =>
      cases hholds : expected.holds (entry.map fun entry ↦ entry.value) with
      | false =>
        exact matches_rejectCompareAndSet
          (s := { (s.nowMs clock).2 with store, isolation := some i }) hs rfl hholds expired
      | true =>
        exact matches_admitCompareAndSet
          (s := { (s.nowMs clock).2 with store, isolation := some i }) hs rfl expired

/-! ### Locks and audits -/

omit hs in
theorem matches_onLockService {command : ClientLockService → Reply × ClientLockService}
    (hcommand : Coverable (command s.lockService).2.store.recordState) :
    Matches (s.onLockService command) (s.reflect.onLockService command) :=
  ⟨rfl, rfl, hcommand⟩

omit hs in
theorem recordAudit_reflect (s : ClientSurfaceState) :
    s.reflect.recordAudit = (s.recordAudit.1, s.recordAudit.2.reflect) := by
  unfold recordAudit ReferenceMap.recordAudit
  rw [show s.reflect.auditEvents = s.auditEvents from rfl]
  split_ifs <;> rfl

omit hs in
theorem lockService_recordAudit (s : ClientSurfaceState) :
    s.recordAudit.2.lockService = s.lockService := by
  unfold recordAudit
  split_ifs <;> rfl

theorem matches_handleForceUnlock :
    Matches (s.handleForceUnlock identity ns key) (s.reflect.forceUnlock identity ns key) := by
  have hlocks := lockService_recordAudit s
  unfold handleForceUnlock ReferenceMap.forceUnlock
  rw [recordAudit_reflect]
  generalize s.recordAudit = recorded at hlocks ⊢
  obtain ⟨_ | _, s'⟩ := recorded
  all_goals
    rw [← hlocks] at hs
    split_ifs
  · exact ⟨rfl, rfl, hs⟩
  · exact ⟨rfl, rfl, hs⟩
  · exact matches_onLockService
      (coverable_of_recordState hs fun store _ ↦
        store.recordState_apply (.forceUnlock ..) rfl nofun)
  · exact ⟨rfl, rfl, hs⟩

/-! ### Requests -/

/-- Every request is answered as the reference map answers it, told whether the quota refused it. -/
theorem matches_handle (idempotencyKey : Option String) (clock : ℕ) (request : ClientRequest) :
    Matches (s.handle identity idempotencyKey clock request)
      (s.reflect.answer identity idempotencyKey clock
        (isQuotaRefusal (s.handle identity idempotencyKey clock request).1) request) := by
  unfold handle ReferenceMap.answer
  cases request with
  | get =>
    exact matches_onEntry hs (fun _ ↦ readValue) (fun _ _ _ h ↦ h) (fun _ _ _ _ ↦ rfl) _ clock
  | put _ _ value ttlMs => exact matches_handlePut hs idempotencyKey value ttlMs clock
  | invalidate => exact matches_handleInvalidate hs
  | batchGet _ keys => exact matches_handleBatchGet hs keys clock
  | batchPut _ entries => exact matches_handleBatchPut hs entries
  | expire _ _ ttlMs =>
    refine matches_onEntry hs (setExpiry · ttlMs) (fun _ entry _ h ↦ ?_) (fun _ _ _ _ ↦ rfl) _ clock
    cases entry <;> exact h
  | persist =>
    refine matches_onEntry hs (fun _ ↦ clearExpiry) (fun _ entry _ h ↦ ?_)
      (fun _ _ _ _ ↦ rfl) _ clock
    cases entry <;> exact h
  | getTtl => exact matches_onEntry hs readTtl (fun _ _ _ h ↦ h) (fun _ _ _ _ ↦ rfl) _ clock
  | conditionalPut _ _ value ttlMs condition =>
    exact matches_handleConditionalPut hs value ttlMs condition clock
  | compareValueAndInvalidate _ _ expectedValue =>
    refine matches_boundExpected hs ?_
    refine matches_onEntry hs (fun _ ↦ removeIfEqual expectedValue) (fun _ entry locks h ↦ ?_)
      (fun _ _ _ _ ↦ rfl) _ clock
    unfold removeIfEqual
    split_ifs <;> exact h
  | compareValueAndExpire _ _ expectedValue ttlMs mode =>
    refine matches_boundExpected hs ?_
    refine matches_onEntry hs (expireIfEqual expectedValue · ttlMs mode) (fun _ entry locks h ↦ ?_)
      (fun _ _ _ _ ↦ rfl) _ clock
    unfold expireIfEqual
    (repeat' split) <;> exact h
  | evictRegion => exact matches_handleEvictRegion hs
  | subscribeInvalidations _ start | subscribeEntryEvents _ start =>
    exact matches_handleSubscribe hs start
  | tryLock =>
    refine matches_onLockService ?_
    exact coverable_of_recordState hs fun store _ ↦
      store.recordState_apply (.tryAcquireLock ..) rfl nofun
  | unlock =>
    refine matches_onLockService ?_
    exact coverable_of_recordState hs fun store _ ↦
      store.recordState_apply (.releaseLock ..) rfl nofun
  | renewLockLease =>
    refine matches_onLockService ?_
    exact coverable_of_recordState hs fun store _ ↦
      store.recordState_apply (.renewLease ..) rfl nofun
  | forceUnlock => exact matches_handleForceUnlock hs
  | getLockOwnership =>
    refine matches_onLockService ?_
    exact coverable_lockOwnership hs _
  | compareAndSet _ _ expected newValue level =>
    exact matches_handleCompareAndSet hs expected newValue level clock
  | removeIfValue ns key expected level =>
    have hdec := @decidedRemove_eq (identity.lockKey ns key) expected (lockConsistency level)
    exact matches_onEntry hs (fun _ ↦ removeIfValueAction _ expected _)
      (fun _ _ _ h ↦ coverable_applySynced h _ _ fun _ h' ↦ coverable_removeIfValue h' ..)
      (fun _ entry _ h ↦ hdec entry h) (·.bind id) clock

omit hs in
theorem isBound_reflect (s : ClientSurfaceState) (identity : ClientIdentity) :
    s.reflect.isBound identity = s.validateTenantIdentity identity := by
  unfold isBound validateTenantIdentity
  rw [reflect_isolation]
  cases s.isolation <;> rfl

theorem matches_recordAudit {reply : Reply} :
    Matches (reply, s.recordAudit.2) (reply, s.reflect.recordAudit.2) where
  answer := rfl
  state := by rw [recordAudit_reflect]
  coverable := by
    rwa [lockService_recordAudit]

omit hs in
/-- Assumes: a reply that matches. It does so after it has been audited. -/
theorem Matches.audit (h : Matches surface reference) (request : ClientRequest) :
    Matches (surface.1, surface.2.recordRejectionAudit request surface.1)
      (reference.1,
        if isAudited request reference.1 then reference.2.recordAudit.2 else reference.2) := by
  rw [recordRejectionAudit, h.answer, h.state]
  split_ifs
  · exact matches_recordAudit h.coverable
  · exact ⟨rfl, rfl, h.coverable⟩

theorem matches_dispatchVerifiedRequest (envelope : ClientRequestEnvelope) (sweepClock clock : ℕ) :
    Matches (s.dispatchVerifiedRequest identity envelope sweepClock clock)
      (s.reflect.request identity envelope sweepClock clock
        (isQuotaRefusal (s.dispatchVerifiedRequest identity envelope sweepClock clock).1)) := by
  unfold dispatchVerifiedRequest handleRequest request
  rw [isBound_reflect]
  cases s.validateTenantIdentity identity with
  | false => exact matches_recordAudit hs
  | true =>
    rw [if_pos rfl, if_pos rfl]
    cases envelope.validateProtocol with
    | error => exact ⟨rfl, rfl, hs⟩
    | ok =>
      dsimp only
      split
      · exact ⟨rfl, rfl, hs⟩
      · rw [readClock_reflect, ← reflect_sweepExpiredEntries _ false]
        refine Matches.audit (matches_handle ?_ ..) envelope.request
        rwa [lockService_sweepExpiredEntries]

theorem matches_apply (event : SurfaceEvent) :
    Matches (s.apply event) (s.reflect.apply (event, (s.apply event).1.any isQuotaRefusal)) := by
  cases event with
  | request => exact (matches_dispatchVerifiedRequest hs ..).map some
  | sweep clock force =>
    refine ⟨rfl, ?_, ?_⟩
    · change (s.reflect.readClock clock).2 = _
      rw [readClock_reflect]
      exact (reflect_sweepExpiredEntries (s.nowMs clock).2 force).symm
    · change Coverable (sweepExpiredEntries _ _ _).lockService.store.recordState
      rwa [lockService_sweepExpiredEntries]

end Coverable

/-- For every sequence of requests and sweeps the surface replies as the reference map does, in
which every entry vanishes at its deadline, and which turns away the writes that the surface refuses
for their quota. -/
theorem replies_eq_reference (limits : ClientSurfaceLimits) (isolation : Option ConsumerIsolation)
    (events : List SurfaceEvent) :
    (trace ReferenceMap.apply (.new limits isolation)
        (events.zip ((trace apply (new limits isolation) events).1.map (·.any isQuotaRefusal)))).1 =
      (trace apply (new limits isolation) events).1 := by
  refine trace_told (R := fun s r ↦ r = reflect s ∧ Coverable s.lockService.store.recordState) ?_
    ⟨(rfl : _ = (new limits isolation).reflect), coverable_new 1 64⟩ events
  rintro s r event ⟨rfl, hs⟩
  have h := matches_apply hs event
  exact ⟨h.answer, h.state, h.coverable⟩

/-! ### The quota sees expired entries -/

/-- A tenant with one client and one namespace, of room for one entry. -/
def cartTenant : Tenant where
  id := "shop"
  clientIds := ["web"]
  namespaces := (∅ : KeyMap String NamespaceQuota).insert "carts" ⟨16, 1⟩

def cartSurface : ClientSurfaceState :=
  new {} (some (.new ((TenantRoster.new [cartTenant]).toOption.getD .empty) {}))

/-- A cart that is gone at time 10, some sweeps, and a put of another cart at time 20. -/
def cartEvents (sweeps : List SurfaceEvent) : List SurfaceEvent :=
  .request ⟨"web", "shop", false⟩ { request := .put "carts" "a" [1] (some 10) } 0 0 ::
    (sweeps ++
      [.request ⟨"web", "shop", false⟩
        { request := .conditionalPut "carts" "b" [2] none .ifAbsent } 20 20])

/-- Without a sweep the expired entry leaves no room for the other, and the conditional put is
refused; after a sweep it goes through, as it does on the reference map. -/
theorem quota_refusal_depends_on_sweep :
    (trace apply cartSurface (cartEvents [])).1 =
        [some (.ok .stored), some (.error (admissionError (.rejectQuota "shop" "carts" 100)))] ∧
      (trace apply cartSurface (cartEvents [.sweep 20 true])).1 =
        [some (.ok .stored), none, some (.ok (.conditionalStored true))] ∧
      (trace ReferenceMap.apply cartSurface.reflect ((cartEvents []).zip [false, false])).1 =
        [some (.ok .stored), some (.ok (.conditionalStored true))] := by
  decide +kernel

end ClientSurfaceState

end HydraCache.Client
