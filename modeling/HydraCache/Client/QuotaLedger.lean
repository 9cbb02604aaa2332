import HydraCache.Client.Surface

/-!
# The quota ledger lists the store

With tenant isolation, the ledger and the store of the client surface change together. After any
sequence of requests and sweeps the ledger lists exactly the entries of the store with the sizes of
their values, every usage is the tally of the ledger, and no usage is above its quota
(`ledger_lists_store`).

One step keeps it (`accounted_apply`). Between the removal of an expired entry from the store and
its release from the ledger the two differ at one key, so the lemmas about requests speak of the
store that the ledger lists (`Accounts`) beside the one the surface has.

Scope. Usages are 64-bit words. A request is taken when its values and those of the store fit into
the memory of one process, which has fewer bytes than that (`Room`).
-/

set_option autoImplicit false

namespace HydraCache.Client

open Lib Grid OrderedMap ConsumerIsolation StoredValue List

/-! ### What is accounted for -/

/-- The bytes of the value, which the quota counts. -/
def StoredValue.size (entry : StoredValue) : ℕ := entry.value.length

/-- The ledger is sound and lists the entries of a store with their sizes. -/
structure Accounts (roster : TenantRoster) (i : ConsumerIsolation) (store : Store) : Prop where
  roster : i.roster = roster
  sound : i.Sound
  entries : i.entries = store.mapValues size

/-- The values that a request brings to be stored. -/
def ClientRequest.carriedValues : ClientRequest → List SealedBytes
  | .put _ _ bytes _ => [bytes]
  | .batchPut _ entries => entries.map fun entry ↦ entry.value
  | .conditionalPut _ _ bytes _ _ => [bytes]
  | .compareAndSet _ _ _ newValue _ => [newValue]
  | _ => []

/-- The values that an event brings to be stored. -/
def SurfaceEvent.carriedValues : SurfaceEvent → List SealedBytes
  | .request _ envelope _ _ => envelope.request.carriedValues
  | .sweep .. => []

/-- The client of the identity is bound to its tenant. -/
def Bound (roster : TenantRoster) (identity : ClientIdentity) : Prop :=
  roster.resolve identity.clientId = some identity.tenant

/-- The values of a store and some others fit into the memory of one process. -/
structure Room (store : Store) (values : List SealedBytes) : Prop where
  bytes : store.total size + (values.map List.length).sum ≤ maxWord
  entries : store.rows.length + values.length ≤ maxWord

instance Room.decidable (store : Store) (values : List SealedBytes) :
    Decidable (Room store values) :=
  decidable_of_iff
    (store.total size + (values.map List.length).sum ≤ maxWord ∧
      store.rows.length + values.length ≤ maxWord)
    ⟨fun h ↦ ⟨h.1, h.2⟩, fun h ↦ ⟨h.bytes, h.entries⟩⟩

variable {roster : TenantRoster} {i j : ConsumerIsolation} {store : Store}
  {identity : ClientIdentity} {values : List SealedBytes} {ns : String}

theorem Room.remove (h : Room store values) (key : EntryKey) : Room (store.remove key) values where
  bytes := (Nat.add_le_add_right (total_retain_le ..) _).trans h.bytes
  entries := (Nat.add_le_add_right (store.length_remove_le key) _).trans h.entries

theorem tenantOf_of_bound (hbound : Bound roster identity) :
    ∃ tenant, roster.tenantOf identity.clientId = some tenant ∧ tenant.id = identity.tenant :=
  TenantRoster.tenantOf_of_resolve hbound

namespace Accounts

theorem of_sameLedger (h : Accounts roster i store) (hsame : i.SameLedger j) :
    Accounts roster j store where
  roster := hsame.roster.trans h.roster
  sound := h.sound.of_sameLedger hsame
  entries := hsame.entries.trans h.entries

theorem mapValues_remove (store : Store) (key : EntryKey) :
    (store.remove key).mapValues size = (store.mapValues size).remove key :=
  mapValues_set size store key none

section

variable (h : Accounts roster i store)
include h

theorem removeEntryForTenant (key : EntryKey) :
    Accounts roster (i.removeEntryForTenant key).2 (store.remove key) := by
  obtain ⟨hsound, hrost, hents⟩ := removeEntryForTenant_spec h.sound key
  refine ⟨hrost.trans h.roster, hsound, hents.trans ?_⟩
  rw [h.entries, mapValues_remove]

theorem removeEntry (hbound : Bound roster identity) (ns key : String) :
    Accounts roster (i.removeEntry identity.clientId ns key).2
      (store.remove (identity.storeKey ns key)) := by
  obtain ⟨tenant, hten, hid⟩ := tenantOf_of_bound hbound
  rw [← h.roster] at hten
  obtain ⟨hsound, hrost, hents⟩ := removeEntry_spec h.sound hten ns key
  refine ⟨hrost.trans h.roster, hsound, hents.trans ?_⟩
  rw [h.entries, hid, mapValues_remove]
  rfl

/-- An entry of the same size in the place of another changes nothing in the ledger. -/
theorem update {key : EntryKey} {old entry : StoredValue}
    (hold : store.get key = some old) (hvalue : entry.value = old.value) :
    Accounts roster i (store.insert key entry) where
  roster := h.roster
  sound := h.sound
  entries := by
    have hset := mapValues_set size store key (some entry)
    have hget : (store.mapValues size).get key = some entry.size := by
      rw [get_mapValues, hold, size, hvalue]
      rfl
    rw [Option.map_some, ← hget, set_get] at hset
    exact h.entries.trans hset.symm

/-- Assumes: room for the values written. The ledger has room for their entries. -/
theorem room (hroom : Room store values) :
    i.entries.total id + (values.map List.length).sum ≤ maxWord ∧
      i.entries.rows.length + values.length ≤ maxWord := by
  rw [h.entries]
  constructor
  · have htotal : (store.mapValues size).total id = store.total size := by
      rw [total, mapValues, map_map]
      rfl
    rw [htotal]
    exact hroom.bytes
  · rw [mapValues, length_map]
    exact hroom.entries

end

end Accounts

/-! ### Admitted writes -/

/-- Assumes: an admission of writes whose entries are those of `written`. Either the ledger still
lists the store, or the commit went through and the ledger lists the store with the entries. -/
theorem Accounts.write {σ : Type*} {rows : TenantId → List (EntryKey × ℕ)} {conditionHolds : Bool}
    {commit : σ → Bool × σ} {outside : σ}
    {result : Except AdmissionRejection Bool × ConsumerIsolation × σ} (h : Accounts roster i store)
    (written : List (EntryKey × StoredValue))
    (hout : i.WriteOutcome identity.clientId ns rows conditionHolds commit outside result)
    (hbound : Bound roster identity) (hfits : ∀ owner, FitsLedger i.entries owner ns (rows owner))
    (hrows : ∀ ledger : Ledger, ledger.insertAll (rows identity.tenant) =
      ledger.insertAll (written.map fun row ↦ (row.1, row.2.size))) :
    result.1 ≠ .ok true ∧ Accounts roster result.2.1 store ∧
        (result.2.2 = outside ∨ conditionHolds = true ∧ commit outside = (false, result.2.2)) ∨
      result.1 = .ok true ∧ Accounts roster result.2.1 (store.insertAll written) ∧
        conditionHolds = true ∧ commit outside = (true, result.2.2) := by
  have hsound := hout.sound h.sound hfits
  cases hout with
  | refused _ hsame | unmet hsame => exact .inl ⟨nofun, h.of_sameLedger hsame, .inl rfl⟩
  | uncommitted hsame hcond hcom => exact .inl ⟨nofun, h.of_sameLedger hsame, .inr ⟨hcond, hcom⟩⟩
  | @committed _ _ _ _ hsame hcond hcom hten =>
    refine .inr ⟨rfl, ⟨hsame.roster.trans h.roster, hsound, ?_⟩, hcond, hcom⟩
    obtain ⟨tenant', htenant', hid⟩ := tenantOf_of_bound hbound
    rw [h.roster] at hten
    cases hten.symm.trans htenant'
    rw [hid, hrows, hsame.entries, h.entries, mapValues_insertAll]

namespace ClientSurfaceState

variable {s s' : ClientSurfaceState}

/-- The surface has isolation, and its ledger lists its store. -/
def Accounted (roster : TenantRoster) (s : ClientSurfaceState) : Prop :=
  ∃ i, s.isolation = some i ∧ Accounts roster i s.store

/-! ### Live entries -/

theorem liveEntry_cases (store : Store) (key : EntryKey) (nowMs : ℕ) :
    liveEntry store key nowMs = (none, true, store.remove key) ∨
      liveEntry store key nowMs = (store.get key, false, store) := by
  unfold liveEntry
  split_ifs
  · exact .inl rfl
  · exact .inr rfl

section Bound

variable (hbound : Bound roster identity)
include hbound

variable {key : String} {α : Type} {newValue : SealedBytes} {action : EntryAction α}
  {value : SealedBytes} {entry : StoredValue} {listed : Store}

/-- Assumes: a store without an entry that the ledger lists. The release brings them in line. -/
theorem accounted_releaseEntry (hiso : s.isolation = some i) (h : Accounts roster i store)
    (hstore : s.store = store.remove (identity.storeKey ns key)) :
    Accounted roster (s.releaseEntry identity ns key) := by
  refine ⟨(i.removeEntry identity.clientId ns key).2, ?_, ?_⟩
  · rw [releaseEntry, hiso]
    rfl
  · change Accounts roster _ s.store
    rw [hstore]
    exact h.removeEntry hbound ns key

omit hbound in
/-- Assumes: an action that keeps the ledger in line with the store. -/
theorem accounted_withAdmittedStore {act : ClientSurfaceState → α × ClientSurfaceState}
    (h : Accounted roster s)
    (hact : ∀ s', Accounted roster s' → s'.store = s.store → Accounted roster (act s').2) :
    Accounted roster (s.withAdmittedStore identity act).2 := by
  obtain ⟨i, hiso, hacc⟩ := h
  have hsame := i.sameLedger_admitRequest identity.clientId
  rw [withAdmittedStore, hiso]
  dsimp only
  split
  · rename_i error j hj
    rw [hj] at hsame
    exact ⟨j, rfl, hacc.of_sameLedger hsame⟩
  · rename_i tenant j hj
    rw [hj] at hsame
    exact hact { s with isolation := some j } ⟨j, rfl, hacc.of_sameLedger hsame⟩ rfl

/-- The action changes no value: it updates an entry that is there, and keeps its value. -/
def KeepsValue {α : Type} (action : EntryAction α) : Prop :=
  ∀ entry locks updated, (action entry locks).2.1 = .update updated →
    ∃ old, entry = some old ∧ updated.value = old.value

section

variable (hkeeps : KeepsValue action) (h : Accounted roster s) (ns key : String) (nowMs : ℕ)
include hkeeps h

theorem accounted_onLiveEntry :
    Accounted roster (onLiveEntry identity ns key nowMs action s).2 := by
  obtain ⟨i, hiso, hacc⟩ := h
  unfold onLiveEntry
  dsimp only
  rcases liveEntry_cases s.store (identity.storeKey ns key) nowMs with hlive | hlive
  · -- the expired entry is gone, and nothing can be updated
    rw [hlive]
    have hchg := hkeeps none s.lockService
    rcases haction : action none s.lockService with ⟨answer, change, locks⟩
    rw [haction] at hchg
    rw [Bool.true_or, if_pos rfl]
    refine accounted_releaseEntry hbound hiso hacc ?_
    cases change with
    | keep => rfl
    | update updated =>
      obtain ⟨old, hold, -⟩ := hchg updated rfl
      cases hold
    | remove => exact set_set s.store _ none none
  · rw [hlive]
    have hchg := hkeeps (s.store.get (identity.storeKey ns key)) s.lockService
    rcases haction : action (s.store.get (identity.storeKey ns key)) s.lockService with
      ⟨answer, change, locks⟩
    rw [haction] at hchg
    dsimp only
    rw [Bool.false_or]
    cases change with
    | keep => exact ⟨i, hiso, hacc⟩
    | update updated =>
      obtain ⟨old, hold, hvalue⟩ := hchg updated rfl
      exact ⟨i, hiso, hacc.update hold hvalue⟩
    | remove => exact accounted_releaseEntry hbound hiso hacc rfl

theorem accounted_withLiveEntry :
    Accounted roster (s.withLiveEntry identity ns key nowMs action).2 :=
  accounted_withAdmittedStore h fun _ h' _ ↦ accounted_onLiveEntry hbound hkeeps h' ..

end

/-! ### Writes -/

/-- Assumes: a ledger that lists `listed`, which the store of the surface may differ from under the
key written. Either the put was written and the ledger lists the store, or neither changed. -/
theorem admitPut_spec
    (hiso : s.isolation = some i) (h : Accounts roster i listed) (hroom : Room listed [entry.value])
    (hother : ∀ other ≠ identity.storeKey ns key, s.store.get other = listed.get other)
    (conditionHolds : Bool) :
    (s.admitPut identity ns key entry conditionHolds).1 = .ok true ∧
        Accounted roster (s.admitPut identity ns key entry conditionHolds).2 ∨
      (s.admitPut identity ns key entry conditionHolds).1 ≠ .ok true ∧
        (s.admitPut identity ns key entry conditionHolds).2.store = s.store ∧
        ∃ j, (s.admitPut identity ns key entry conditionHolds).2.isolation = some j ∧
          Accounts roster j listed := by
  obtain ⟨hbytes, hents⟩ := h.room hroom
  rw [admitPut, hiso]
  dsimp only
  have hout := i.writeOutcome_put identity.clientId ns key entry.value.length conditionHolds
    (fun s : ClientSurfaceState ↦
      (true, { s with store := s.store.insert (identity.storeKey ns key) entry })) s
  have hwrite := h.write [(identity.storeKey .., entry)] hout hbound
    (fitsLedger_putRow hbytes hents ns key) fun _ ↦ rfl
  rw [Ne, mapError_eq_ok_iff]
  rcases hwrite with ⟨hne, hacc, houtside⟩ | ⟨hok, hacc, -, hcom⟩
  · refine .inr ⟨hne, ?_, _, rfl, hacc⟩
    rcases houtside with houtside | ⟨-, hcom⟩
    · exact congrArg ClientSurfaceState.store houtside
    · cases hcom
  · refine .inl ⟨hok, _, rfl, ?_⟩
    have hstore : s.store.insert (identity.storeKey ns key) entry =
        listed.insert (identity.storeKey ns key) entry := by
      refine ext_get fun other ↦ ?_
      rw [get_insert, get_insert]
      split_ifs with hkey
      · rfl
      · exact hother other hkey
    rwa [← (Prod.mk.inj hcom).2, hstore]

theorem accounted_admitPut (h : Accounted roster s)
    (hroom : Room s.store [entry.value]) (ns key : String) (conditionHolds : Bool) :
    Accounted roster (s.admitPut identity ns key entry conditionHolds).2 := by
  obtain ⟨i, hiso, hacc⟩ := h
  rcases admitPut_spec hbound hiso hacc hroom (fun _ _ ↦ rfl) conditionHolds with
    ⟨-, haccounted⟩ | ⟨-, hstore, j, hj, hacc⟩
  · exact haccounted
  · refine ⟨j, hj, ?_⟩
    rwa [hstore]

omit hbound in
theorem value_stored (value : SealedBytes) (nowMs : ℕ) (ttlMs : Option ℕ) :
    (stored value nowMs ttlMs).value = value := by
  cases ttlMs <;> rfl

theorem accounted_handlePut (h : Accounted roster s) (idempotencyKey : Option String)
    (ns key : String) (ttlMs : Option ℕ) (clock : ℕ) (hroom : Room s.store [value]) :
    Accounted roster (s.handlePut identity idempotencyKey ns key value ttlMs clock).2 := by
  unfold handlePut
  split
  · exact h
  · dsimp only
    have hentry : Room s.store
        [(stored value (s.nowMs clock).1 ttlMs).value] := by
      rwa [value_stored]
    split
    · exact accounted_admitPut (s := (s.nowMs clock).2) hbound h hentry ns key true
    · split
      · exact h
      · rename_i idempotencyKeys _
        have hput := accounted_admitPut (s := { (s.nowMs clock).2 with idempotencyKeys })
          hbound h hentry ns key true
        split
        all_goals
          rename_i hadm
          rwa [hadm] at hput

omit hbound in
theorem isCommitted_eq_false {admitted : Except ClientErrorEnvelope Bool}
    (h : admitted ≠ .ok true) : isCommitted admitted = false := by
  rcases admitted with _ | (_ | _)
  · rfl
  · rfl
  · exact absurd rfl h

theorem accounted_handleConditionalPut (h : Accounted roster s) (ns key : String) (ttlMs : Option ℕ)
    (condition : ConditionalPutCondition) (clock : ℕ) (hroom : Room s.store [value]) :
    Accounted roster (s.handleConditionalPut identity ns key value ttlMs condition clock).2 := by
  obtain ⟨i, hiso, hacc⟩ := h
  unfold handleConditionalPut
  split_ifs
  · exact ⟨i, hiso, hacc⟩
  · exact ⟨i, hiso, hacc⟩
  · dsimp only
    have hentry : Room s.store [(stored value (s.nowMs clock).1 ttlMs).value] := by
      rwa [value_stored]
    rcases liveEntry_cases s.store (identity.storeKey ns key) (s.nowMs clock).1 with hlive | hlive
    · rw [show liveEntry (s.nowMs clock).2.store _ _ = _ from hlive]
      have hother : ∀ other ≠ identity.storeKey ns key,
          (s.store.remove (identity.storeKey ns key)).get other = s.store.get other := by
        intro other hne
        rw [get_remove, if_neg hne]
      have hput := admitPut_spec
        (s := { (s.nowMs clock).2 with store := s.store.remove (identity.storeKey ..) })
        hbound hiso hacc hentry hother (condition.holds none)
      rcases hput with ⟨hok, haccounted⟩ | ⟨hne, hstore, j, hj, hlist⟩
      · rwa [hok]
      · rw [isCommitted_eq_false hne]
        exact accounted_releaseEntry hbound hj hlist hstore
    · rw [show liveEntry (s.nowMs clock).2.store _ _ = _ from hlive]
      exact accounted_admitPut (s := (s.nowMs clock).2) hbound ⟨i, hiso, hacc⟩ hentry ns key _

omit hbound in
/-- The store after a commit of a compare-and-set. -/
theorem stored_of_commit {live : Option SealedBytes} {expected : CasExpectation}
    {level : LockConsistency} {applied : Bool} {result : Reply × ClientSurfaceState}
    (h : (isCasApplied (s.compareAndSet identity ns key live expected newValue level).1,
      s.compareAndSet identity ns key live expected newValue level) = (applied, result)) :
    result.2.store = if applied then
      s.store.insert (identity.storeKey ns key) (.persistent newValue) else s.store := by
  cases h
  rfl

theorem accounted_admitCompareAndSet (h : Accounts roster i s.store) (ns key : String)
    (live : Option SealedBytes) (expected : CasExpectation) (level : LockConsistency)
    (hroom : Room s.store [newValue]) :
    Accounted roster
      (s.admitCompareAndSet i identity ns key live false expected newValue level).2 := by
  obtain ⟨hbytes, hents⟩ := h.room hroom
  unfold admitCompareAndSet
  dsimp only
  have hout := i.writeOutcome_put identity.clientId ns key newValue.length true
    (fun outside : Reply × ClientSurfaceState ↦
      (isCasApplied (outside.2.compareAndSet identity ns key live expected newValue level).1,
        outside.2.compareAndSet identity ns key live expected newValue level))
    (.ok (.casMismatch live), s)
  have hwrite := h.write [(identity.storeKey .., .persistent newValue)] hout hbound
    (fitsLedger_putRow hbytes hents ns key) fun _ ↦ rfl
  generalize i.admitPutIfCommitted _ _ _ _ _ _ _ = result at hwrite ⊢
  obtain ⟨admitted, j, reply, s'⟩ := result
  have hfinal : Accounted roster { s' with isolation := some j } := by
    refine ⟨j, rfl, ?_⟩
    rcases hwrite with ⟨-, hacc, houtside | ⟨-, hcom⟩⟩ | ⟨-, hacc, -, hcom⟩
    · cases houtside
      exact hacc
    · rwa [stored_of_commit hcom]
    · rw [stored_of_commit hcom]
      exact hacc
  cases admitted <;> exact hfinal

theorem accounted_rejectCompareAndSet (hiso : s.isolation = some i) (h : Accounts roster i store)
    (ns key : String) (live : Option SealedBytes) (expired : Bool) (expected : CasExpectation)
    (level : LockConsistency) (hroom : Room store [newValue])
    (hstore : s.store = if expired then store.remove (identity.storeKey ns key) else store) :
    Accounted roster
      (s.rejectCompareAndSet i identity ns key live expired expected newValue level).2 := by
  obtain ⟨hbytes, hents⟩ := h.room hroom
  unfold rejectCompareAndSet
  have hout := i.writeOutcome_put identity.clientId ns key newValue.length false
    (fun s : ClientSurfaceState ↦ (false, s)) s
  have hwrite := h.write [(identity.storeKey .., .persistent newValue)] hout hbound
    (fitsLedger_putRow hbytes hents ns key) fun _ ↦ rfl
  generalize i.admitPutIfCommitted _ _ _ _ _ _ _ = result at hwrite ⊢
  obtain ⟨admitted, j, s'⟩ := result
  rcases hwrite with ⟨-, hacc, houtside | ⟨hcond, -⟩⟩ | ⟨-, -, hcond, -⟩
  · obtain rfl : s' = s := houtside
    have hrel : Accounted roster
        (if expired then { s' with isolation := some j }.releaseEntry identity ns key
          else { s' with isolation := some j }) := by
      cases expired with
      | true => exact accounted_releaseEntry hbound rfl hacc hstore
      | false =>
        refine ⟨j, rfl, ?_⟩
        rwa [hstore]
    cases admitted <;> exact hrel
  · cases hcond
  · cases hcond

theorem accounted_handleCompareAndSet (h : Accounted roster s) (ns key : String)
    (expected : CasExpectation) (level : LockConsistency) (clock : ℕ)
    (hroom : Room s.store [newValue]) :
    Accounted roster (s.handleCompareAndSet identity ns key expected newValue level clock).2 := by
  obtain ⟨i, hiso, hacc⟩ := h
  unfold handleCompareAndSet
  split
  · exact ⟨i, hiso, hacc⟩
  · dsimp only
    split
    · rename_i hnone
      cases hiso.symm.trans hnone
    rename_i isolation hsome
    cases hiso.symm.trans hsome
    rcases liveEntry_cases s.store (identity.storeKey ns key) (s.nowMs clock).1 with hlive | hlive
    · rw [show liveEntry (s.nowMs clock).2.store _ _ = _ from hlive]
      -- an entry that has expired meets no expectation
      have hunmet : expected.holds none = false := by cases expected <;> rfl
      dsimp only [Option.map_none]
      rw [if_neg (Bool.eq_false_iff.mp hunmet)]
      exact accounted_rejectCompareAndSet
        (s := { (s.nowMs clock).2 with store := s.store.remove (identity.storeKey ..) })
        hbound hiso hacc ns key none true expected level hroom rfl
    · rw [show liveEntry (s.nowMs clock).2.store _ _ = _ from hlive]
      split_ifs
      · exact accounted_admitCompareAndSet (s := (s.nowMs clock).2) hbound hacc ns key _
          expected level hroom
      · exact accounted_rejectCompareAndSet (s := (s.nowMs clock).2) hbound hiso hacc ns
          key _ false expected level hroom rfl

theorem accounted_handleBatchPut (h : Accounted roster s) (ns : String)
    {entries : List BatchPutEntry} (hroom : Room s.store (entries.map fun entry ↦ entry.value)) :
    Accounted roster (s.handleBatchPut identity ns entries).2 := by
  obtain ⟨i, hiso, hacc⟩ := h
  obtain ⟨hbytes, hents⟩ := hacc.room hroom
  unfold handleBatchPut
  split
  · exact ⟨i, hiso, hacc⟩
  · rw [hiso]
    dsimp only
    let quotaEntries := entries.map fun entry ↦ (entry.key, entry.value.length)
    have hquotaBytes : i.entries.total id + (quotaEntries.map Prod.snd).sum ≤ maxWord := by
      rw [map_map] at hbytes ⊢
      exact hbytes
    have hquotaEntries : i.entries.rows.length + quotaEntries.length ≤ maxWord := by
      rw [length_map] at hents ⊢
      exact hents
    have hout := i.writeOutcome_batchPut identity.clientId ns quotaEntries
      (fun s : ClientSurfaceState ↦
        (true, { s with store := s.store.insertAll (batchEntries identity ns entries) })) s
    have hrows : ∀ ledger : Ledger,
        ledger.insertAll (batchRows ns quotaEntries identity.tenant) =
          ledger.insertAll
            ((batchEntries identity ns entries).map fun row ↦ (row.1, row.2.size)) := by
      intro ledger
      rw [batchRows, insertAll_ofList, batchEntries, map_map, map_map]
      rfl
    have hwrite := hacc.write (batchEntries identity ns entries) hout hbound
      (fitsLedger_batchRows hquotaBytes hquotaEntries ns) hrows
    rcases hwrite with ⟨-, hlist, houtside⟩ | ⟨-, hlist, -, hcom⟩
    · refine ⟨_, rfl, ?_⟩
      rcases houtside with houtside | ⟨-, hcom⟩
      · rwa [houtside]
      · cases hcom
    · refine ⟨_, rfl, ?_⟩
      rwa [← (Prod.mk.inj hcom).2]

/-! ### Reads and removals -/

/-- Assumes: a store without some entries that the ledger lists. Releasing them brings the two in
line. -/
theorem accounted_releaseAll {keys : List String} (hiso : s.isolation = some i)
    (h : Accounts roster i listed)
    (hstore : s.store = keys.foldl (fun store key ↦ store.remove (identity.storeKey ns key))
      listed) :
    Accounted roster (keys.foldl (fun s key ↦ s.releaseEntry identity ns key) s) := by
  induction keys generalizing s i listed with
  | nil =>
    refine ⟨i, hiso, ?_⟩
    rwa [foldl_nil, hstore]
  | cons _ _ ih =>
    refine ih ?_ (h.removeEntry hbound ..) hstore
    change s.isolation.map _ = _
    rw [hiso]
    rfl

omit hbound in
theorem store_batchGetItems (storeKey : String → EntryKey) (nowMs : ℕ) (keys : List String)
    (store : Store) :
    (batchGetItems storeKey nowMs keys store).2.2 =
      (batchGetItems storeKey nowMs keys store).2.1.foldl
        (fun store key ↦ store.remove (storeKey key)) store := by
  induction keys generalizing store with
  | nil => rfl
  | cons key _ ih =>
    rw [batchGetItems]
    rcases liveEntry_cases store (storeKey key) nowMs with hlive | hlive
    · rw [hlive]
      exact ih (store.remove (storeKey key))
    · rw [hlive]
      exact ih store

variable (h : Accounted roster s)
include h

theorem accounted_handleBatchGet (ns : String) (keys : List String) (clock : ℕ) :
    Accounted roster (s.handleBatchGet identity ns keys clock).2 := by
  unfold handleBatchGet
  split_ifs
  · exact h
  · exact h
  · refine accounted_withAdmittedStore (s := (s.nowMs clock).2) h fun s' h' _ ↦ ?_
    obtain ⟨i, hiso, hacc⟩ := h'
    exact accounted_releaseAll (s := { s' with store := _ }) hbound hiso hacc
      (store_batchGetItems ..)

theorem accounted_handleInvalidate (ns key : String) :
    Accounted roster (s.handleInvalidate identity ns key).2 := by
  unfold handleInvalidate
  refine accounted_withAdmittedStore h fun s' h' _ ↦ ?_
  obtain ⟨i, hiso, hacc⟩ := h'
  dsimp only
  split_ifs with hrem
  · exact accounted_releaseEntry hbound hiso hacc rfl
  · refine ⟨i, hiso, ?_⟩
    rw [remove_of_get_eq_none]
    · exact hacc
    · exact Option.not_isSome_iff_eq_none.mp hrem

theorem accounted_handleEvictRegion (ns : String) :
    Accounted roster (s.handleEvictRegion identity ns).2 := by
  obtain ⟨i, hiso, hacc⟩ := h
  obtain ⟨tenant, hten, hid⟩ := tenantOf_of_bound hbound
  rw [← hacc.roster] at hten
  obtain ⟨hsound, hrost, hents⟩ :=
    evictNamespace_spec hacc.sound hten ns
  rw [handleEvictRegion, hiso]
  dsimp only
  split
  · rename_i error j hj
    rw [hj] at hsound hrost hents
    rcases hents with ⟨hents, -⟩ | ⟨-, removed, hok⟩
    · exact ⟨j, rfl, hrost.trans hacc.roster, hsound, hents.trans hacc.entries⟩
    · cases hok
  · rename_i removed j hj
    rw [hj] at hsound hrost hents
    rcases hents with ⟨-, error, herror⟩ | ⟨hents, -⟩
    · cases herror
    · refine ⟨j, rfl, hrost.trans hacc.roster, hsound, hents.trans ?_⟩
      rw [hacc.entries, hid, mapValues_retain]

end Bound

section

variable (h : Accounted roster s)
include h

theorem accounted_handleSubscribe (start : Option Watermark) :
    Accounted roster (s.handleSubscribe identity start).2 := by
  obtain ⟨i, hiso, hacc⟩ := h
  rw [handleSubscribe, hiso]
  exact ⟨_, rfl, hacc.of_sameLedger (i.sameLedger_beginSubscription ..)⟩

theorem accounted_recordAudit : Accounted roster s.recordAudit.2 := by
  unfold recordAudit
  split_ifs <;> exact h

theorem accounted_handleForceUnlock (ns key : String) :
    Accounted roster (s.handleForceUnlock identity ns key).2 := by
  have haudit := accounted_recordAudit h
  unfold handleForceUnlock
  split_ifs
  · split
    all_goals
      rename_i hrec
      rwa [hrec] at haudit
  · exact haudit

/-! ### Sweeps -/

theorem accounted_dropExpired (key : EntryKey) : Accounted roster (s.dropExpired key) := by
  obtain ⟨i, hiso, hacc⟩ := h
  refine ⟨(i.removeEntryForTenant key).2, ?_, hacc.removeEntryForTenant key⟩
  rw [dropExpired, hiso]
  rfl

end

/-- What dropping an entry keeps is kept by a sweep. -/
theorem sweep_invariant {I : ClientSurfaceState → Prop}
    (hdrop : ∀ s key, I s → I (s.dropExpired key))
    (hcursor : ∀ s next cursor, I s →
      I { s with nextExpirySweepMs := next, expirySweepCursor := cursor }) (h : I s) (nowMs : ℕ)
    (force : Bool) : I (s.sweepExpiredEntries nowMs force) := by
  unfold sweepExpiredEntries
  split_ifs
  · exact h
  all_goals
    exact hcursor _ _ _ (List.foldlRecOn _ _ h fun s h key _ ↦ hdrop s key h)

theorem lockService_sweepExpiredEntries (s : ClientSurfaceState) (nowMs : ℕ) (force : Bool) :
    (s.sweepExpiredEntries nowMs force).lockService = s.lockService :=
  sweep_invariant (I := fun swept ↦ swept.lockService = s.lockService) (fun _ _ h ↦ h)
    (fun _ _ _ h ↦ h) rfl nowMs force

theorem accounted_sweepExpiredEntries (h : Accounted roster s) (nowMs : ℕ) (force : Bool) :
    Accounted roster (s.sweepExpiredEntries nowMs force) :=
  sweep_invariant (I := Accounted roster) (fun _ key h ↦ accounted_dropExpired h key)
    (fun _ _ _ h ↦ h) h nowMs force

theorem room_sweepExpiredEntries (h : Room s.store values) (nowMs : ℕ) (force : Bool) :
    Room (s.sweepExpiredEntries nowMs force).store values :=
  sweep_invariant (I := fun s ↦ Room s.store values) (fun _ key h ↦ h.remove key)
    (fun _ _ _ h ↦ h) h nowMs force

/-! ### Requests -/

theorem accounted_handle (h : Accounted roster s) (hbound : Bound roster identity)
    (idempotencyKey : Option String) (clock : ℕ) (request : ClientRequest)
    (hroom : Room s.store request.carriedValues) :
    Accounted roster (s.handle identity idempotencyKey clock request).2 := by
  have hentry {α : Type} (action : EntryAction α) (ns key : String) (hkeeps : KeepsValue action) :
      Accounted roster
        ((s.nowMs clock).2.withLiveEntry identity ns key (s.nowMs clock).1 action).2 :=
    accounted_withLiveEntry (s := (s.nowMs clock).2) hbound hkeeps h ns key _
  cases request with
  | get ns key => exact hentry readValue ns key nofun
  | put ns key _ ttlMs => exact accounted_handlePut hbound h idempotencyKey ns key ttlMs clock hroom
  | invalidate ns key => exact accounted_handleInvalidate hbound h ns key
  | batchGet ns keys => exact accounted_handleBatchGet hbound h ns keys clock
  | batchPut ns => exact accounted_handleBatchPut hbound h ns hroom
  | expire ns key ttlMs =>
    refine hentry (setExpiry _ ttlMs) ns key ?_
    rintro (_ | old) locks updated hupd <;> cases hupd
    exact ⟨old, rfl, rfl⟩
  | persist ns key =>
    refine hentry clearExpiry ns key ?_
    rintro (_ | old) locks updated hupd <;> cases hupd
    exact ⟨old, rfl, rfl⟩
  | getTtl ns key => exact hentry (readTtl _) ns key nofun
  | conditionalPut ns key _ ttlMs condition =>
    exact accounted_handleConditionalPut hbound h ns key ttlMs condition clock hroom
  | compareValueAndInvalidate ns key expectedValue =>
    change Accounted roster (s.handleCompareValueInvalidate identity ns key expectedValue clock).2
    unfold handleCompareValueInvalidate
    split_ifs
    · exact h
    · refine hentry (removeIfEqual expectedValue) ns key fun entry locks updated hupd ↦ ?_
      unfold removeIfEqual at hupd
      split_ifs at hupd
  | compareValueAndExpire ns key expectedValue ttlMs mode =>
    change Accounted roster (s.handleCompareValueExpire ..).2
    unfold handleCompareValueExpire
    split_ifs
    · exact h
    · refine hentry (expireIfEqual expectedValue _ ttlMs mode) ns key ?_
      rintro (_ | old) locks updated hupd
      · cases hupd
      · unfold expireIfEqual at hupd
        dsimp only at hupd
        split_ifs at hupd
        split at hupd <;> cases hupd
        exact ⟨old, rfl, rfl⟩
  | evictRegion ns => exact accounted_handleEvictRegion hbound h ns
  | subscribeInvalidations _ start | subscribeEntryEvents _ start =>
    exact accounted_handleSubscribe h start
  | tryLock | unlock | renewLockLease => exact h
  | forceUnlock ns key => exact accounted_handleForceUnlock h ns key
  | getLockOwnership => exact h
  | compareAndSet ns key expected _ level =>
    exact accounted_handleCompareAndSet hbound h ns key expected level clock hroom
  | removeIfValue ns key expected =>
    refine hentry (removeIfValueAction _ expected _) ns key fun entry locks updated hupd ↦ ?_
    unfold removeIfValueAction at hupd
    dsimp only at hupd
    split_ifs at hupd

theorem accounted_handleRequest (h : Accounted roster s) (hbound : Bound roster identity)
    {envelope : ClientRequestEnvelope} (sweepClock clock : ℕ)
    (hroom : Room s.store envelope.request.carriedValues) :
    Accounted roster (s.handleRequest identity envelope sweepClock clock).2 := by
  unfold handleRequest
  split
  · exact h
  · split_ifs
    · exact h
    · have hswept := accounted_sweepExpiredEntries (s := (s.nowMs sweepClock).2) h
        (s.nowMs sweepClock).1 false
      have hhandled := accounted_handle hswept hbound envelope.idempotencyKey clock envelope.request
        (room_sweepExpiredEntries (s := (s.nowMs ..).2) hroom _ false)
      dsimp only [recordRejectionAudit]
      split_ifs
      · exact accounted_recordAudit hhandled
      · exact hhandled

/-- Assumes: the values that the event carries fit beside the store. One event keeps the ledger in
line with the store. -/
theorem accounted_apply (h : Accounted roster s) (event : SurfaceEvent)
    (hroom : Room s.store event.carriedValues) : Accounted roster (s.apply event).2 := by
  cases event with
  | request identity envelope sweepClock clock =>
    change Accounted roster (s.dispatchVerifiedRequest identity envelope sweepClock clock).2
    unfold dispatchVerifiedRequest
    split_ifs with hvalid
    · obtain ⟨i, hiso, hacc⟩ := h
      have hbound : Bound roster identity := by
        rw [validateTenantIdentity, hiso] at hvalid
        rw [Bound, ← hacc.roster]
        exact of_decide_eq_true hvalid
      exact accounted_handleRequest ⟨i, hiso, hacc⟩ hbound sweepClock clock hroom
    · exact accounted_recordAudit h
  | sweep clock force => exact accounted_sweepExpiredEntries (s := (s.nowMs clock).2) h _ force

/-! ### Runs -/

/-- One event, taken when the values it carries fit into memory beside the store. -/
def step (s : ClientSurfaceState) (event : SurfaceEvent) : Option ClientSurfaceState :=
  if Room s.store event.carriedValues then some (s.apply event).2 else none

/-- The usage of a namespace that is not of the roster is none. -/
theorem usageOf_of_quota_eq_none (h : i.Sound) {tenant : TenantId}
    (hquota : i.roster.quota tenant ns = none) : i.usageOf tenant ns = {} := by
  have hempty : i.entries.retain (·.isIn tenant ns) = ∅ := by
    refine ext_get fun key ↦ ?_
    rw [get_retain, get_empty]
    split_ifs with hin
    · obtain ⟨rfl, rfl⟩ := EntryKey.isIn_iff.mp hin
      exact h.get_eq_none hquota
    · rfl
  rw [h.counted, tally, hempty]
  rfl

section

variable {limits : ClientSurfaceLimits} {config : ConsumerIsolationConfig}
  {events : List SurfaceEvent}
  (hrun : run step (new limits (some (.new roster config))) events = some s)
include hrun

theorem accounted_of_run : Accounted roster s := by
  refine invariant_of_run (I := Accounted roster) ?_ ?_ hrun
  · intro s event s' h hstep
    unfold step at hstep
    split_ifs at hstep with hroom
    cases hstep
    exact accounted_apply h event hroom
  · exact ⟨.new roster config, rfl, rfl, sound_new .., rfl⟩

/-- Assumes: a run of requests and sweeps from an empty surface with tenant isolation. The ledger
lists exactly the entries of the store, with the sizes of their values. The usage of every namespace
is the sum and the count of its entries in the ledger, and is within its quota; a namespace without
a quota has no usage. -/
theorem ledger_lists_store :
    ∃ isolation, s.isolation = some isolation ∧
      (∀ tenant ns key, isolation.entries.get ⟨tenant, ns, key⟩ =
        (s.store.get ⟨tenant, ns, key⟩).map fun entry ↦ entry.value.length) ∧
      ∀ tenant ns,
        isolation.usageOf tenant ns =
          { bytes := ((isolation.entries.rows.filter (·.1.isIn tenant ns)).map Prod.snd).sum
            entries := (isolation.entries.rows.filter (·.1.isIn tenant ns)).length } ∧
        match roster.quota tenant ns with
        | some quota => (isolation.usageOf tenant ns).bytes ≤ quota.maxBytes ∧
            (isolation.usageOf tenant ns).entries ≤ quota.maxEntries
        | none => isolation.usageOf tenant ns = {} := by
  obtain ⟨i, hiso, hacc⟩ := accounted_of_run hrun
  refine ⟨i, hiso, fun tenant ns key ↦ ?_, fun tenant ns ↦ ⟨?_, ?_⟩⟩
  · rw [hacc.entries, get_mapValues]
    rfl
  · exact hacc.sound.counted tenant ns
  · rw [← hacc.roster]
    split
    · rename_i quota hquota
      exact NamespaceUsage.exceeds_eq_false_iff.mp (hacc.sound.within tenant ns quota hquota)
    · rename_i hquota
      exact usageOf_of_quota_eq_none hacc.sound hquota

end

/-- A tenant with one client and one namespace, of room for two entries of four bytes together. -/
def orderTenant : Tenant where
  id := "shop"
  clientIds := ["web"]
  namespaces := (∅ : KeyMap String NamespaceQuota).insert "orders" ⟨4, 2⟩

def orderRoster : TenantRoster := (TenantRoster.new [orderTenant]).toOption.getD .empty

/-- A request of the client at a time. -/
def orderRequest (request : ClientRequest) (clock : ℕ) : SurfaceEvent :=
  .request ⟨"web", "shop", false⟩ { request } clock clock

/-- A value expires and is replaced, a batch names one key twice, a put is refused, and a
compare-and-set and a removal by value apply. -/
def orderEvents : List SurfaceEvent :=
  [orderRequest (.put "orders" "a" [1, 2] (some 10)) 0,
    orderRequest (.batchPut "orders" [⟨"b", [1]⟩, ⟨"b", [1, 2]⟩]) 5,
    orderRequest (.put "orders" "c" [1] none) 6,
    orderRequest (.conditionalPut "orders" "a" [7] none .ifAbsent) 20,
    orderRequest (.compareAndSet "orders" "b" (.exact [1, 2]) [4, 5, 6] .quorum) 21,
    orderRequest (.removeIfValue "orders" "a" [7] .quorum) 22,
    .sweep 2000 false]

theorem ledger_lists_store_orders :
    ∃ s isolation, run step (new {} (some (.new orderRoster {}))) orderEvents = some s ∧
      s.isolation = some isolation ∧
      s.store.rows = [(⟨"shop", "orders", "b"⟩, .persistent [4, 5, 6])] ∧
      isolation.entries.get ⟨"shop", "orders", "b"⟩ = some 3 ∧
      (isolation.usageOf "shop" "orders").bytes ≤ 4 := by
  obtain ⟨s, hrun, hrows, hget⟩ : ∃ s ∈ run step (new {} (some (.new orderRoster {}))) orderEvents,
      s.store.rows = [(⟨"shop", "orders", "b"⟩, .persistent [4, 5, 6])] ∧
        s.store.get ⟨"shop", "orders", "b"⟩ = some (.persistent [4, 5, 6]) := by decide +kernel
  obtain ⟨isolation, hiso, hlists, husage⟩ := ledger_lists_store hrun
  have hquota : orderRoster.quota "shop" "orders" = some ⟨4, 2⟩ := by decide +kernel
  have hwithin := (husage "shop" "orders").2
  rw [hquota] at hwithin
  refine ⟨s, isolation, hrun, hiso, hrows, ?_, hwithin.1⟩
  rw [hlists, hget]
  rfl

end ClientSurfaceState

end HydraCache.Client
