import HydraCache.Lib.KeyMap
import HydraCache.Lib.OrderedMap
import HydraCache.Lib.Word
import Mathlib.Data.Prod.Lex
import Mathlib.Data.String.Basic

/-!
# Tenant isolation

A roster binds client ids to tenants and gives each tenant its namespaces, with a quota of bytes and
of entries each. Isolation admits requests against the limits of the tenant, and writes against the
quota of the namespace: it keeps a ledger of the entries admitted, with the bytes of each, and the
usage of every namespace beside it. An admitted write is committed by its caller, and enters the
ledger only if the commit says so.

The ledger is sound (`Sound`) when every usage is the tally of the ledger, no usage is above its
quota, and every entry belongs to a namespace of the roster. Each operation keeps it sound and
changes the ledger at the entries it is about: `WriteOutcome` lists what the admission of writes can
do and `WriteOutcome.sound` covers it; `removeEntry_spec`, `removeEntryForTenant_spec` and
`evictNamespace_spec` are about the removals.

Scope. A tenant id is the text of it; blank ids are refused where identities are made. The metrics
that isolation counts for each tenant are left out.
-/

set_option autoImplicit false

namespace HydraCache.Client

open Lib OrderedMap Option Bool

/-! ### The roster -/

abbrev TenantId := String

structure NamespaceQuota where
  maxBytes : ℕ
  maxEntries : ℕ
deriving DecidableEq

structure Tenant where
  id : TenantId
  clientIds : List String
  namespaces : KeyMap String NamespaceQuota
  rateLimitPerWindow : ℕ := maxWord
  fairSharePerWindow : ℕ := maxWord
  maxSubscriptions : ℕ := maxWord

def Tenant.quota (tenant : Tenant) (ns : String) : Option NamespaceQuota :=
  tenant.namespaces.lookup ns

inductive MultitenancyError where
  | tenantWithoutClients (tenant : TenantId)
  | tenantWithoutNamespaces (tenant : TenantId)
  | duplicateClient (client : String)
  | duplicateTenant
deriving DecidableEq

/-- The tenants by id, and the tenant of each client. -/
structure TenantRoster where
  tenants : KeyMap TenantId Tenant
  clientToTenant : KeyMap String TenantId
  ids : ∀ id tenant, tenants.lookup id = some tenant → tenant.id = id
  known : ∀ client id, clientToTenant.lookup client = some id → (tenants.lookup id).isSome

/-- Bind clients that are not bound yet to a tenant. -/
def bindClients (tenant : TenantId) :
    List String → KeyMap String TenantId → Except MultitenancyError (KeyMap String TenantId)
  | [], bound => .ok bound
  | client :: clients, bound =>
    if client ∈ bound then .error (.duplicateClient client)
    else bindClients tenant clients (bound.insert client tenant)

theorem lookup_bindClients {tenant id : TenantId} {clients : List String}
    {bound bound' : KeyMap String TenantId} (h : bindClients tenant clients bound = .ok bound')
    {client : String} (hclient : bound'.lookup client = some id) :
    id = tenant ∨ bound.lookup client = some id := by
  induction clients generalizing bound with
  | nil =>
    cases h
    exact .inr hclient
  | cons _ _ ih =>
    rw [bindClients] at h
    split_ifs at h
    rcases ih h with hid | hid
    · exact .inl hid
    · obtain ⟨-, rfl⟩ | hid := KeyMap.of_lookup_insert hid
      · exact .inl rfl
      · exact .inr hid

namespace TenantRoster

def empty : TenantRoster where
  tenants := ∅
  clientToTenant := ∅
  ids _ _ h := by cases h
  known _ _ h := by cases h

section

variable (roster : TenantRoster)

def addTenant (tenant : Tenant) : Except MultitenancyError TenantRoster :=
  if tenant.clientIds.isEmpty then .error (.tenantWithoutClients tenant.id)
  else if KeyMap.isEmpty tenant.namespaces then .error (.tenantWithoutNamespaces tenant.id)
  else
    match hbound : bindClients tenant.id tenant.clientIds roster.clientToTenant with
    | .error error => .error error
    | .ok clientToTenant =>
      if tenant.id ∈ roster.tenants then .error .duplicateTenant
      else .ok
        { tenants := roster.tenants.insert tenant.id tenant
          clientToTenant
          ids := by
            intro id other h
            obtain ⟨rfl, rfl⟩ | h := KeyMap.of_lookup_insert h
            · rfl
            · exact roster.ids id other h
          known := by
            intro client id h
            rw [KeyMap.lookup_insert_apply]
            split_ifs with hid
            · rfl
            · exact roster.known client id ((lookup_bindClients hbound h).resolve_left hid) }

def new (tenants : List Tenant) : Except MultitenancyError TenantRoster :=
  tenants.foldlM addTenant empty

def tenant (id : TenantId) : Option Tenant := roster.tenants.lookup id

def resolve (client : String) : Option TenantId :=
  roster.clientToTenant.lookup client

/-- The tenant that a client is bound to; its id came from the roster. -/
def tenantOf (client : String) : Option Tenant :=
  match h : roster.clientToTenant.lookup client with
  | none => none
  | some id => some ((roster.tenants.lookup id).get (roster.known client id h))

/-- The quota of a namespace of a tenant. -/
def quota (tenant : TenantId) (ns : String) : Option NamespaceQuota :=
  (roster.tenant tenant).bind (·.quota ns)

end

variable {roster : TenantRoster} {client : String} {tenant : Tenant}

theorem tenant_of_tenantOf (h : roster.tenantOf client = some tenant) :
    roster.resolve client = some tenant.id ∧ roster.tenant tenant.id = some tenant := by
  unfold tenantOf at h
  split at h
  · cases h
  · rename_i id hid
    have hten : roster.tenants.lookup id = some tenant := by
      rw [← Option.some.inj h, some_get]
    obtain rfl := roster.ids id tenant hten
    exact ⟨hid, hten⟩

theorem tenantOf_of_resolve {id : TenantId} (h : roster.resolve client = some id) :
    ∃ tenant, roster.tenantOf client = some tenant ∧ tenant.id = id := by
  obtain ⟨tenant, hten⟩ := isSome_iff_exists.mp (roster.known client id h)
  refine ⟨tenant, ?_, roster.ids id tenant hten⟩
  unfold tenantOf
  split
  · rename_i hnone
    cases hnone.symm.trans h
  · rename_i other hother
    cases hother.symm.trans h
    exact congrArg some (get_of_eq_some _ hten)

theorem quota_of_tenantOf (h : roster.tenantOf client = some tenant) (ns : String) :
    roster.quota tenant.id ns = tenant.quota ns := by
  rw [quota, (tenant_of_tenantOf h).2, bind_some]

end TenantRoster

/-! ### The ledger -/

/-- The tenant, the namespace and the text of a key. -/
structure EntryKey where
  tenant : TenantId
  ns : String
  key : String

namespace EntryKey

def order (key : EntryKey) : String ×ₗ String ×ₗ String :=
  toLex (key.tenant, toLex (key.ns, key.key))

theorem order_injective : Function.Injective order := by
  rintro ⟨tenant, ns, key⟩ ⟨tenant', ns', key'⟩ h
  obtain ⟨rfl, hrest⟩ := Prod.mk.inj (toLex_inj.mp h)
  obtain ⟨rfl, rfl⟩ := Prod.mk.inj (toLex_inj.mp hrest)
  rfl

instance : LinearOrder EntryKey := LinearOrder.lift' order order_injective

/-- The key belongs to a namespace. -/
def isIn (tenant : TenantId) (ns : String) (key : EntryKey) : Bool :=
  decide (key.tenant = tenant) && decide (key.ns = ns)

theorem isIn_iff {tenant : TenantId} {ns : String} {key : EntryKey} :
    key.isIn tenant ns = true ↔ key.tenant = tenant ∧ key.ns = ns := by
  rw [isIn, and_eq_true, decide_eq_true_iff, decide_eq_true_iff]

end EntryKey

/-- The entries admitted, with the bytes of their values. -/
abbrev Ledger := OrderedMap EntryKey ℕ

structure NamespaceUsage where
  bytes : ℕ := 0
  entries : ℕ := 0
deriving DecidableEq

namespace NamespaceUsage

/-- The usage after a value took the place of one of `oldBytes`. -/
def project (usage : NamespaceUsage) (oldBytes : Option ℕ) (newBytes : ℕ) : NamespaceUsage where
  bytes := saturatingAdd (usage.bytes - oldBytes.getD 0) newBytes
  entries := if oldBytes.isSome then usage.entries else saturatingSucc usage.entries

/-- The usage of one entry less. -/
def release (usage : NamespaceUsage) (oldBytes : ℕ) : NamespaceUsage where
  bytes := usage.bytes - oldBytes
  entries := usage.entries - 1

def exceeds (usage : NamespaceUsage) (quota : NamespaceQuota) : Bool :=
  decide (quota.maxBytes < usage.bytes) || decide (quota.maxEntries < usage.entries)

theorem exceeds_eq_false_iff {usage : NamespaceUsage} {quota : NamespaceQuota} :
    usage.exceeds quota = false ↔
      usage.bytes ≤ quota.maxBytes ∧ usage.entries ≤ quota.maxEntries := by
  rw [exceeds, or_eq_false_iff, decide_eq_false_iff_not, decide_eq_false_iff_not, not_lt, not_lt]

end NamespaceUsage

structure ConsumerIsolationConfig where
  maxValueBytes : ℕ := 16 * 1024 * 1024
  maxRequestBytes : ℕ := 8 * 1024 * 1024
  maxBatchItems : ℕ := 128
deriving DecidableEq

/-- Why a request is not admitted; the times to wait are in milliseconds. -/
inductive AdmissionRejection where
  | unknownTenant
  | unknownNamespace (tenant : TenantId) (ns : String)
  | rejectQuota (tenant : TenantId) (ns : String) (retryAfter : ℕ)
  | rejectRate (tenant : TenantId) (retryAfter : ℕ)
  | globalLimit (reason : String)
deriving DecidableEq

structure ConsumerIsolation where
  roster : TenantRoster
  config : ConsumerIsolationConfig
  entries : Ledger := ∅
  usage : KeyMap (TenantId × String) NamespaceUsage := ∅
  requestCounts : KeyMap TenantId ℕ := ∅
  fairShareCounts : KeyMap TenantId ℕ := ∅
  subscriptions : KeyMap TenantId ℕ := ∅

namespace ConsumerIsolation

def new (roster : TenantRoster) (config : ConsumerIsolationConfig) : ConsumerIsolation where
  roster
  config

section

variable (i : ConsumerIsolation)

/-- The usage of a namespace; none is no usage. -/
def usageOf (tenant : TenantId) (ns : String) : NamespaceUsage :=
  (i.usage.lookup (tenant, ns)).getD {}

/-! ### Admission -/

def checkRate (tenant : Tenant) : Except AdmissionRejection Unit × ConsumerIsolation :=
  let count := (i.requestCounts.lookup tenant.id).getD 0
  if tenant.rateLimitPerWindow ≤ count then (.error (.rejectRate tenant.id 50), i)
  else (.ok (), { i with requestCounts := i.requestCounts.insert tenant.id (saturatingSucc count) })

def checkFairShare (tenant : Tenant) : Except AdmissionRejection Unit × ConsumerIsolation :=
  let count := (i.fairShareCounts.lookup tenant.id).getD 0
  if tenant.fairSharePerWindow ≤ count then (.error (.rejectRate tenant.id 50), i)
  else
    (.ok (),
      { i with fairShareCounts := i.fairShareCounts.insert tenant.id (saturatingSucc count) })

/-- Admit a request against the rate and the fair share of its tenant. A request that its fair share
refuses has been counted in its rate. -/
def admitRequest (client : String) : Except AdmissionRejection Tenant × ConsumerIsolation :=
  match i.roster.tenantOf client with
  | none => (.error .unknownTenant, i)
  | some tenant =>
    match i.checkRate tenant with
    | (.error error, i) => (.error error, i)
    | (.ok (), i) =>
      match i.checkFairShare tenant with
      | (.error error, i) => (.error error, i)
      | (.ok (), i) => (.ok tenant, i)

/-- Admit a request that writes to a namespace, which its tenant has to own. -/
def admitWrite (client ns : String) :
    Except AdmissionRejection (Tenant × NamespaceQuota) × ConsumerIsolation :=
  match i.admitRequest client with
  | (.error error, i) => (.error error, i)
  | (.ok tenant, i) =>
    match tenant.quota ns with
    | none => (.error (.unknownNamespace tenant.id ns), i)
    | some quota => (.ok (tenant, quota), i)

/-- Admit a put. `commit` writes the value outside the ledger, and runs when nothing refuses the put
and its condition holds; the put enters the ledger if it committed. -/
def admitPutIfCommitted {σ : Type*} (i : ConsumerIsolation) (client ns key : String)
    (valueBytes : ℕ) (conditionHolds : Bool) (commit : σ → Bool × σ) (outside : σ) :
    Except AdmissionRejection Bool × ConsumerIsolation × σ :=
  if i.config.maxValueBytes < valueBytes then
    (.error (.globalLimit "max_value_bytes"), i, outside)
  else
    match i.admitWrite client ns with
    | (.error error, i) => (.error error, i, outside)
    | (.ok (tenant, quota), i) =>
      if conditionHolds then
        let entryKey : EntryKey := ⟨tenant.id, ns, key⟩
        let projected := (i.usageOf tenant.id ns).project (i.entries.get entryKey) valueBytes
        if projected.exceeds quota then (.error (.rejectQuota tenant.id ns 100), i, outside)
        else
          match commit outside with
          | (false, outside) => (.ok false, i, outside)
          | (true, outside) =>
            (.ok true,
              { i with
                entries := i.entries.insert entryKey valueBytes
                usage := i.usage.insert (tenant.id, ns) projected },
              outside)
      else (.ok false, i, outside)

/-- The usage after entries took their places in the ledger. -/
def projectAll (ledger : Ledger) (usage : NamespaceUsage) (rows : List (EntryKey × ℕ)) :
    NamespaceUsage :=
  rows.foldl (fun usage row ↦ usage.project (ledger.get row.1) row.2) usage

/-- Admit a batch of puts as a whole. Of the puts of one key the last counts. -/
def admitBatchPutIfCommitted {σ : Type*} (i : ConsumerIsolation) (client ns : String)
    (entries : List (String × ℕ)) (commit : σ → Bool × σ) (outside : σ) :
    Except AdmissionRejection Bool × ConsumerIsolation × σ :=
  if i.config.maxBatchItems < entries.length then
    (.error (.globalLimit "max_batch_items"), i, outside)
  else if i.config.maxRequestBytes <
    entries.foldl (fun total entry ↦ saturatingAdd total entry.2) 0 then
    (.error (.globalLimit "max_request_bytes"), i, outside)
  else if entries.any fun entry ↦ i.config.maxValueBytes < entry.2 then
    (.error (.globalLimit "max_value_bytes"), i, outside)
  else
    match i.admitWrite client ns with
    | (.error error, i) => (.error error, i, outside)
    | (.ok (tenant, quota), i) =>
      let finalEntries : Ledger :=
        .ofList (entries.map fun entry ↦ (⟨tenant.id, ns, entry.1⟩, entry.2))
      let projected := projectAll i.entries (i.usageOf tenant.id ns) finalEntries.rows
      if projected.exceeds quota then (.error (.rejectQuota tenant.id ns 100), i, outside)
      else
        match commit outside with
        | (false, outside) => (.ok false, i, outside)
        | (true, outside) =>
          (.ok true,
            { i with
              entries := i.entries.insertAll finalEntries.rows
              usage := i.usage.insert (tenant.id, ns) projected },
            outside)

def removeEntryForTenant (entryKey : EntryKey) : Bool × ConsumerIsolation :=
  if (i.roster.tenant entryKey.tenant).isNone then (false, i)
  else
    match i.entries.get entryKey with
    | none => (false, i)
    | some oldBytes =>
      (true,
        { i with
          entries := i.entries.remove entryKey
          usage := i.usage.insert (entryKey.tenant, entryKey.ns)
            ((i.usageOf entryKey.tenant entryKey.ns).release oldBytes) })

def removeEntry (client ns key : String) : Except AdmissionRejection Bool × ConsumerIsolation :=
  match i.roster.tenantOf client with
  | none => (.error .unknownTenant, i)
  | some tenant =>
    if (tenant.quota ns).isNone then (.error (.unknownNamespace tenant.id ns), i)
    else
      let removed := i.removeEntryForTenant ⟨tenant.id, ns, key⟩
      (.ok removed.1, removed.2)

def beginSubscription (client : String) : Except AdmissionRejection Unit × ConsumerIsolation :=
  match i.admitRequest client with
  | (.error error, i) => (.error error, i)
  | (.ok tenant, i) =>
    let current := (i.subscriptions.lookup tenant.id).getD 0
    if tenant.maxSubscriptions ≤ current then (.error (.rejectRate tenant.id 50), i)
    else
      (.ok (),
        { i with subscriptions := i.subscriptions.insert tenant.id (saturatingSucc current) })

/-- Remove all entries of a namespace, whether the tenant owns it or not. -/
def evictNamespace (client ns : String) : Except AdmissionRejection ℕ × ConsumerIsolation :=
  match i.admitRequest client with
  | (.error error, i) => (.error error, i)
  | (.ok tenant, i) =>
    let entries := i.entries.retain fun key ↦ !key.isIn tenant.id ns
    (.ok (i.entries.rows.length - entries.rows.length),
      { i with entries, usage := i.usage.insert (tenant.id, ns) {} })

end

/-! ### Requests leave the ledger alone -/

/-- Two states with one roster and one ledger. -/
structure SameLedger (i j : ConsumerIsolation) : Prop where
  roster : j.roster = i.roster
  entries : j.entries = i.entries
  usage : j.usage = i.usage

variable {i j : ConsumerIsolation} {client ns key : String} {tenant : Tenant}
  {quota : NamespaceQuota} {rows : List (EntryKey × ℕ)}

theorem SameLedger.refl (i : ConsumerIsolation) : SameLedger i i := ⟨rfl, rfl, rfl⟩

/-- The counters that a request is added to, and the limits that refuse it. -/
theorem admitRequest_eq (i : ConsumerIsolation) (client : String) : i.admitRequest client =
    match i.roster.tenantOf client with
    | none => (.error .unknownTenant, i)
    | some tenant =>
      let count := (i.requestCounts.lookup tenant.id).getD 0
      let share := (i.fairShareCounts.lookup tenant.id).getD 0
      let counted :=
        { i with requestCounts := i.requestCounts.insert tenant.id (saturatingSucc count) }
      if tenant.rateLimitPerWindow ≤ count then (.error (.rejectRate tenant.id 50), i)
      else if tenant.fairSharePerWindow ≤ share then (.error (.rejectRate tenant.id 50), counted)
      else (.ok tenant,
        { counted with
          fairShareCounts := i.fairShareCounts.insert tenant.id (saturatingSucc share) }) := by
  unfold admitRequest checkRate checkFairShare
  cases i.roster.tenantOf client with
  | none => rfl
  | some =>
    dsimp only
    split_ifs <;> simp [*]

theorem sameLedger_admitRequest (i : ConsumerIsolation) (client : String) :
    SameLedger i (i.admitRequest client).2 := by
  rw [admitRequest_eq]
  cases i.roster.tenantOf client with
  | none => exact .refl i
  | some =>
    dsimp only
    split_ifs <;> exact ⟨rfl, rfl, rfl⟩

theorem tenantOf_of_admitRequest (h : (i.admitRequest client).1 = .ok tenant) :
    i.roster.tenantOf client = some tenant := by
  rw [admitRequest_eq] at h
  cases hfound : i.roster.tenantOf client with
  | none => rw [hfound] at h; cases h
  | some =>
    rw [hfound] at h
    dsimp only at h
    split_ifs at h
    cases h
    rfl

theorem sameLedger_admitWrite (i : ConsumerIsolation) (client ns : String) :
    SameLedger i (i.admitWrite client ns).2 := by
  have hreq := sameLedger_admitRequest i client
  unfold admitWrite
  split
  · simp_all only
  · split <;> simp_all only

theorem owner_of_admitWrite (h : (i.admitWrite client ns).1 = .ok (tenant, quota)) :
    i.roster.tenantOf client = some tenant ∧ i.roster.quota tenant.id ns = some quota := by
  unfold admitWrite at h
  split at h
  · cases h
  · rename_i found j hreq
    have hten := tenantOf_of_admitRequest (congrArg Prod.fst hreq)
    split at h
    · cases h
    · rename_i hquota
      cases h
      exact ⟨hten, (TenantRoster.quota_of_tenantOf hten ns).trans hquota⟩

/-! ### Tallies -/

/-- What the ledger says of a namespace: the bytes and the number of its entries. -/
def tally (ledger : Ledger) (tenant : TenantId) (ns : String) : NamespaceUsage where
  bytes := (ledger.retain (·.isIn tenant ns)).total id
  entries := (ledger.retain (·.isIn tenant ns)).rows.length

section Tally

variable {ledger : Ledger} {owner : TenantId} {name : String} {entryKey : EntryKey} {bytes : ℕ}

theorem tally_insert_of_not (h : entryKey.isIn owner name = false) :
    tally (ledger.insert entryKey bytes) owner name = tally ledger owner name := by
  rw [tally, tally, retain_insert, if_neg (eq_false_iff.mp h)]

theorem tally_remove_of_not (h : entryKey.isIn owner name = false) :
    tally (ledger.remove entryKey) owner name = tally ledger owner name := by
  have hnone : (ledger.retain (·.isIn owner name)).get entryKey = none := by
    rw [get_retain, if_neg (eq_false_iff.mp h)]
  rw [tally, tally, retain_remove, remove_of_get_eq_none _ hnone]

/-- Assumes: room below the top of the counters. The projected usage is the tally with the entry. -/
theorem project_tally (hkey : entryKey.isIn owner name = true)
    (hbytes : ledger.total id + bytes ≤ maxWord) (hents : ledger.rows.length < maxWord) :
    (tally ledger owner name).project (ledger.get entryKey) bytes =
      tally (ledger.insert entryKey bytes) owner name := by
  rw [tally, tally, retain_insert, if_pos hkey, NamespaceUsage.project]
  have htotal := total_retain_le id (·.isIn owner name) ledger
  have hlen : (ledger.retain (·.isIn owner name)).rows.length ≤ ledger.rows.length :=
    List.length_filter_le _ _
  have hget : (ledger.retain (·.isIn owner name)).get entryKey = ledger.get entryKey := by
    rw [get_retain, if_pos hkey]
  generalize ledger.retain (·.isIn owner name) = part at *
  rw [total_insert, length_insert, ← hget]
  cases hold : part.get entryKey with
  | none =>
    rw [remove_of_get_eq_none part hold]
    have hroom : part.total id + bytes ≤ maxWord := by omega
    have hsucc : part.rows.length < maxWord := by omega
    congr 1
    · exact (saturatingAdd_of_le hroom).trans (Nat.add_comm _ _)
    · exact saturatingSucc_of_lt hsucc
  | some old =>
    have hpart : part.total id = old + (part.remove entryKey).total id := part.total_of_get id hold
    have hroom : part.total id - old + bytes ≤ maxWord := by omega
    congr 1
    · refine (saturatingAdd_of_le hroom).trans ?_
      rw [hpart, Nat.add_sub_cancel_left, Nat.add_comm]
      rfl
    · exact part.length_of_get hold

theorem release_tally (hkey : entryKey.isIn owner name = true)
    (hold : ledger.get entryKey = some bytes) :
    (tally ledger owner name).release bytes = tally (ledger.remove entryKey) owner name := by
  rw [tally, tally, retain_remove, NamespaceUsage.release]
  have hget : (ledger.retain (·.isIn owner name)).get entryKey = some bytes := by
    rw [get_retain, if_pos hkey, hold]
  have htotal := (ledger.retain (·.isIn owner name)).total_of_get id hget
  have hcount := (ledger.retain (·.isIn owner name)).length_of_get hget
  congr 1
  · rw [htotal]
    exact Nat.add_sub_cancel_left _ _
  · rw [hcount]
    exact Nat.add_sub_cancel _ _

/-- Assumes: entries of one namespace under distinct keys, none of which the ledger changed
meanwhile, and room for all of them. The projected usage is the tally with the entries. -/
theorem projectAll_tally {before : Ledger}
    (hrows : ∀ row ∈ rows, row.1.isIn owner name = true ∧ before.get row.1 = ledger.get row.1)
    (hdist : rows.Pairwise fun row other ↦ row.1 ≠ other.1)
    (hbytes : ledger.total id + (rows.map Prod.snd).sum ≤ maxWord)
    (hents : ledger.rows.length + rows.length ≤ maxWord) :
    projectAll before (tally ledger owner name) rows =
      tally (ledger.insertAll rows) owner name := by
  induction rows generalizing ledger with
  | nil => rfl
  | cons row rows ih =>
    obtain ⟨hfirst, hrest⟩ := List.pairwise_cons.mp hdist
    obtain ⟨hkey, hget⟩ := hrows row List.mem_cons_self
    rw [List.map_cons, List.sum_cons] at hbytes
    rw [List.length_cons] at hents
    change projectAll before ((tally ledger owner name).project (before.get row.1) row.2) rows = _
    rw [hget, project_tally hkey (by omega) (by omega)]
    refine ih (fun other hother ↦ ?_) hrest ?_ ?_
    · refine ⟨(hrows other (List.mem_cons_of_mem _ hother)).1, ?_⟩
      rw [get_insert_of_ne _ _ (hfirst other hother).symm]
      exact (hrows other (List.mem_cons_of_mem _ hother)).2
    · have hins := total_insert_le id ledger row.1 row.2
      simp only [id] at hins
      omega
    · have hins := length_insert_le ledger row.1 row.2
      omega

theorem tally_insertAll_of_not (h : ∀ row ∈ rows, row.1.isIn owner name = false) :
    tally (ledger.insertAll rows) owner name = tally ledger owner name := by
  induction rows generalizing ledger with
  | nil => rfl
  | cons row _ ih =>
    refine (ih fun other hother ↦ h other (List.mem_cons_of_mem _ hother)).trans ?_
    exact tally_insert_of_not (h row List.mem_cons_self)

end Tally

/-! ### Soundness -/

/-- Every usage is the tally of the ledger, no usage is above its quota, and every entry belongs to
a namespace of the roster. -/
structure Sound (i : ConsumerIsolation) : Prop where
  counted : ∀ owner name, i.usageOf owner name = tally i.entries owner name
  within : ∀ owner name quota, i.roster.quota owner name = some quota →
    (i.usageOf owner name).exceeds quota = false
  owned : ∀ entryKey bytes, i.entries.get entryKey = some bytes →
    (i.roster.quota entryKey.tenant entryKey.ns).isSome

theorem sound_new (roster : TenantRoster) (config : ConsumerIsolationConfig) :
    Sound (new roster config) where
  counted _ _ := rfl
  within _ _ quota _ := by
    rw [NamespaceUsage.exceeds_eq_false_iff]
    exact ⟨Nat.zero_le _, Nat.zero_le _⟩
  owned _ _ h := by cases h

theorem Sound.of_sameLedger (h : Sound i) (hsame : SameLedger i j) : Sound j where
  counted owner name := by
    rw [usageOf, hsame.usage, hsame.entries]
    exact h.counted owner name
  within owner name quota hquota := by
    rw [hsame.roster] at hquota
    rw [usageOf, hsame.usage]
    exact h.within owner name quota hquota
  owned entryKey bytes hget := by
    rw [hsame.entries] at hget
    rw [hsame.roster]
    exact h.owned entryKey bytes hget

variable {ledger : Ledger} {owner : TenantId} {σ : Type*} {owner' : TenantId}

/-- Assumes: a ledger that differs in one namespace at most, with the tally of that namespace as its
new usage, within the quota, and no entry in a namespace that is not of the roster. It is sound. -/
theorem Sound.update (h : Sound i) {name : String}
    (hother : ∀ owner' name', (owner', name') ≠ (owner, name) →
      tally ledger owner' name' = tally i.entries owner' name')
    (hwithin : ∀ quota, i.roster.quota owner name = some quota →
      (tally ledger owner name).exceeds quota = false)
    (howned : ∀ entryKey bytes, ledger.get entryKey = some bytes →
      (i.roster.quota entryKey.tenant entryKey.ns).isSome) :
    Sound { i with
      entries := ledger
      usage := i.usage.insert (owner, name) (tally ledger owner name) } := by
  have husage : ∀ owner' name', ((i.usage.insert (owner, name) (tally ledger owner name)).lookup
      (owner', name')).getD {} = tally ledger owner' name' := by
    intro owner' name'
    rw [KeyMap.lookup_insert_apply]
    split_ifs with hname
    · cases hname
      rfl
    · rw [hother owner' name' hname]
      exact h.counted owner' name'
  refine ⟨husage, ?_, howned⟩
  intro owner' name' quota hquota
  by_cases hname : (owner', name') = (owner, name)
  · cases hname
    rw [usageOf, husage]
    exact hwithin quota hquota
  · rw [usageOf, husage, hother owner' name' hname, ← h.counted]
    exact h.within owner' name' quota hquota

theorem isIn_eq_false {name name' : String}
    (hne : (owner', name') ≠ (owner, name)) (text : String) :
    EntryKey.isIn owner' name' ⟨owner, name, text⟩ = false := by
  rw [eq_false_iff]
  intro hin
  obtain ⟨rfl, rfl⟩ := EntryKey.isIn_iff.mp hin
  exact hne rfl

section

variable (i : ConsumerIsolation) (client ns : String) (rows : TenantId → List (EntryKey × ℕ))
  (conditionHolds : Bool) (commit : σ → Bool × σ) (outside : σ)

/-- What an admission of writes can do: refuse them, find their condition unmet, run a commit that
did not go through, or enter the writes in the ledger. -/
inductive WriteOutcome : Except AdmissionRejection Bool × ConsumerIsolation × σ → Prop where
  | refused (error : AdmissionRejection) {j : ConsumerIsolation} (hsame : SameLedger i j) :
    WriteOutcome (.error error, j, outside)
  | unmet {j : ConsumerIsolation} (hsame : SameLedger i j) (hcondition : conditionHolds = false) :
    WriteOutcome (.ok false, j, outside)
  | uncommitted {j : ConsumerIsolation} {outside'} (hsame : SameLedger i j)
      (hcondition : conditionHolds = true) (hcommit : commit outside = (false, outside')) :
    WriteOutcome (.ok false, j, outside')
  | committed {j : ConsumerIsolation} {tenant : Tenant} {quota : NamespaceQuota} {outside'}
      (hsame : SameLedger i j) (hcondition : conditionHolds = true)
      (hcommit : commit outside = (true, outside'))
        (htenant : i.roster.tenantOf client = some tenant)
      (hquota : i.roster.quota tenant.id ns = some quota)
      (hwithin : (projectAll j.entries (j.usageOf tenant.id ns) (rows tenant.id)).exceeds quota =
        false) :
    WriteOutcome
      (.ok true,
        { j with
          entries := j.entries.insertAll (rows tenant.id)
          usage := j.usage.insert (tenant.id, ns)
            (projectAll j.entries (j.usageOf tenant.id ns) (rows tenant.id)) },
        outside')

end

/-- The entry of a put. -/
def putRow (ns key : String) (valueBytes : ℕ) (owner : TenantId) : List (EntryKey × ℕ) :=
  [(⟨owner, ns, key⟩, valueBytes)]

/-- The entries of a batch of puts, the last of each key. -/
def batchRows (ns : String) (entries : List (String × ℕ)) (owner : TenantId) :
    List (EntryKey × ℕ) :=
  (ofList (entries.map fun entry ↦ (EntryKey.mk owner ns entry.1, entry.2))).rows

/-- The limit that a put exceeds, if there is one. -/
def putLimit (valueBytes : ℕ) (config : ConsumerIsolationConfig) : Option AdmissionRejection :=
  if config.maxValueBytes < valueBytes then some (.globalLimit "max_value_bytes") else none

/-- The limit that a batch of puts exceeds, if there is one. -/
def batchLimit (sizes : List ℕ) (config : ConsumerIsolationConfig) : Option AdmissionRejection :=
  if config.maxBatchItems < sizes.length then some (.globalLimit "max_batch_items")
  else if config.maxRequestBytes < sizes.foldl saturatingAdd 0 then
    some (.globalLimit "max_request_bytes")
  else if sizes.any (config.maxValueBytes < ·) then some (.globalLimit "max_value_bytes")
  else none

section AdmitRows

variable (i : ConsumerIsolation) (client ns key : String) (valueBytes : ℕ)
  (entries : List (String × ℕ)) (conditionHolds : Bool) (commit : σ → Bool × σ) (outside : σ)

/-- What the admissions of a put and of a batch share. -/
def admitRows (limit : Option AdmissionRejection) (rows : TenantId → List (EntryKey × ℕ)) :
    Except AdmissionRejection Bool × ConsumerIsolation × σ :=
  match limit with
  | some error => (.error error, i, outside)
  | none =>
    match i.admitWrite client ns with
    | (.error error, i) => (.error error, i, outside)
    | (.ok (tenant, quota), i) =>
      if conditionHolds then
        let projected := projectAll i.entries (i.usageOf tenant.id ns) (rows tenant.id)
        if projected.exceeds quota then (.error (.rejectQuota tenant.id ns 100), i, outside)
        else
          match commit outside with
          | (false, outside) => (.ok false, i, outside)
          | (true, outside) =>
            (.ok true,
              { i with
                entries := i.entries.insertAll (rows tenant.id)
                usage := i.usage.insert (tenant.id, ns) projected },
              outside)
      else (.ok false, i, outside)

theorem admitPutIfCommitted_eq :
    i.admitPutIfCommitted client ns key valueBytes conditionHolds commit outside =
      i.admitRows client ns conditionHolds commit outside (putLimit valueBytes i.config)
        (putRow ns key valueBytes) := by
  unfold admitPutIfCommitted admitRows putLimit
  split_ifs <;> rfl

theorem admitBatchPutIfCommitted_eq :
    i.admitBatchPutIfCommitted client ns entries commit outside =
      i.admitRows client ns true commit outside (batchLimit (entries.map Prod.snd) i.config)
        (batchRows ns entries) := by
  unfold admitBatchPutIfCommitted admitRows batchLimit
  rw [List.length_map, List.foldl_map, List.any_map, Function.comp_def]
  split_ifs <;> first | rfl | contradiction

theorem writeOutcome_admitRows (limit : Option AdmissionRejection)
    (rows : TenantId → List (EntryKey × ℕ)) :
    WriteOutcome i client ns rows conditionHolds commit outside
      (i.admitRows client ns conditionHolds commit outside limit rows) := by
  unfold admitRows
  split
  · exact .refused _ (.refl i)
  · have hsame := sameLedger_admitWrite i client ns
    split
    · rename_i error j hwrite
      rw [hwrite] at hsame
      exact .refused error hsame
    · rename_i tenant quota j hwrite
      obtain ⟨hten, hquota⟩ := owner_of_admitWrite (congrArg Prod.fst hwrite)
      rw [hwrite] at hsame
      split_ifs with hcond
      · dsimp only
        split_ifs with hexceeds
        · exact .refused _ hsame
        · split
          · exact .uncommitted hsame hcond ‹_›
          · exact .committed hsame hcond ‹_› hten hquota (eq_false_iff.mpr hexceeds)
      · exact .unmet hsame (eq_false_iff.mpr hcond)

theorem writeOutcome_put :
    WriteOutcome i client ns (putRow ns key valueBytes) conditionHolds commit outside
      (i.admitPutIfCommitted client ns key valueBytes conditionHolds commit outside) := by
  rw [admitPutIfCommitted_eq]
  apply writeOutcome_admitRows

theorem writeOutcome_batchPut :
    WriteOutcome i client ns (batchRows ns entries) true commit outside
      (i.admitBatchPutIfCommitted client ns entries commit outside) := by
  rw [admitBatchPutIfCommitted_eq]
  apply writeOutcome_admitRows

end AdmitRows

/-- Entries of one namespace under distinct keys, with room for them in the ledger. -/
structure FitsLedger (ledger : Ledger) (owner : TenantId) (ns : String)
    (rows : List (EntryKey × ℕ)) : Prop where
  inside : ∀ row ∈ rows, row.1.tenant = owner ∧ row.1.ns = ns
  distinct : rows.Pairwise fun row other ↦ row.1 ≠ other.1
  bytes : ledger.total id + (rows.map Prod.snd).sum ≤ maxWord
  entries : ledger.rows.length + rows.length ≤ maxWord

/-- Assumes: a sound ledger with room for the entries, within the quota of their namespace. It is
sound with the entries too. -/
theorem Sound.insertAll (h : Sound i) (hquota : i.roster.quota owner ns = some quota)
    (hwithin : (projectAll i.entries (i.usageOf owner ns) rows).exceeds quota = false)
    (hfits : FitsLedger i.entries owner ns rows) :
    Sound { i with
      entries := i.entries.insertAll rows
      usage := i.usage.insert (owner, ns) (projectAll i.entries (i.usageOf owner ns) rows) } := by
  have hproject : projectAll i.entries (i.usageOf owner ns) rows =
      tally (i.entries.insertAll rows) owner ns := by
    rw [h.counted]
    exact projectAll_tally (fun row hrow ↦ ⟨EntryKey.isIn_iff.mpr (hfits.inside row hrow), rfl⟩)
      hfits.distinct hfits.bytes hfits.entries
  rw [hproject] at hwithin ⊢
  refine h.update (fun owner' name' hne ↦ tally_insertAll_of_not fun row hrow ↦ ?_) ?_ ?_
  · obtain ⟨rfl, rfl⟩ := hfits.inside row hrow
    exact isIn_eq_false hne row.1.key
  · intro quota' hquota'
    rwa [Option.some.inj (hquota'.symm.trans hquota)]
  · intro entryKey bytes hget
    rw [get_insertAll, or_eq_some_iff] at hget
    rcases hget with hget | ⟨-, hget⟩
    · obtain ⟨hten, hns⟩ := hfits.inside _ (mem_of_get_ofList hget)
      rw [hten, hns, hquota]
      rfl
    · exact h.owned entryKey bytes hget

section

variable {rows : TenantId → List (EntryKey × ℕ)} {conditionHolds : Bool} {commit : σ → Bool × σ}
  {out : σ} {result : Except AdmissionRejection Bool × ConsumerIsolation × σ}
  (hout : WriteOutcome i client ns rows conditionHolds commit out result)
include hout

/-- Assumes: a sound ledger with room for the writes. It is sound after their admission. -/
theorem WriteOutcome.sound (h : Sound i)
    (hfits : ∀ owner, FitsLedger i.entries owner ns (rows owner)) : Sound result.2.1 := by
  cases hout with
  | refused _ hsame | unmet hsame | uncommitted hsame => exact h.of_sameLedger hsame
  | committed hsame _ _ _ hquota hwithin =>
    rw [← hsame.roster] at hquota
    refine (h.of_sameLedger hsame).insertAll hquota hwithin ?_
    rw [hsame.entries]
    exact hfits _

end

theorem fitsLedger_putRow {valueBytes : ℕ} (hbytes : ledger.total id + valueBytes ≤ maxWord)
    (hents : ledger.rows.length < maxWord) (ns key : String) (owner : TenantId) :
    FitsLedger ledger owner ns (putRow ns key valueBytes owner) where
  inside row hrow := by
    rw [List.mem_singleton.mp hrow]
    exact ⟨rfl, rfl⟩
  distinct := List.pairwise_singleton _ _
  bytes := hbytes
  entries := hents

theorem fitsLedger_batchRows {entries : List (String × ℕ)}
    (hbytes : ledger.total id + (entries.map Prod.snd).sum ≤ maxWord)
    (hents : ledger.rows.length + entries.length ≤ maxWord) (ns : String) (owner : TenantId) :
    FitsLedger ledger owner ns (batchRows ns entries owner) where
  inside row hrow := by
    have hlist := mem_of_get_ofList ((get_eq_some_iff _).mpr hrow)
    obtain ⟨entry, -, hentry⟩ := List.mem_map.mp hlist
    rw [← (Prod.mk.inj hentry).1]
    exact ⟨rfl, rfl⟩
  distinct := (sorted _).imp LT.lt.ne
  bytes := by
    have htotal := total_insertAll_le id ∅
      (entries.map fun entry ↦ (EntryKey.mk owner ns entry.1, entry.2))
    rw [List.map_map] at htotal
    exact (Nat.add_le_add_left (htotal.trans (Nat.zero_add _).le) _).trans hbytes
  entries := by
    have hlen :=
      length_insertAll_le ∅ (entries.map fun entry ↦ (EntryKey.mk owner ns entry.1, entry.2))
    rw [List.length_map] at hlen
    exact (Nat.add_le_add_left (hlen.trans (Nat.zero_add _).le) _).trans hents

/-- A sound ledger has no entry in a namespace that is not of the roster. -/
theorem Sound.get_eq_none (h : Sound i) {entryKey : EntryKey}
    (hquota : i.roster.quota entryKey.tenant entryKey.ns = none) :
    i.entries.get entryKey = none := by
  by_contra hsome
  obtain ⟨bytes, hget⟩ := ne_none_iff_exists'.mp hsome
  have howned := h.owned entryKey bytes hget
  simp [hquota] at howned

theorem removeEntryForTenant_spec (h : Sound i) (entryKey : EntryKey) :
    Sound (i.removeEntryForTenant entryKey).2 ∧
      (i.removeEntryForTenant entryKey).2.roster = i.roster ∧
      (i.removeEntryForTenant entryKey).2.entries = i.entries.remove entryKey := by
  unfold removeEntryForTenant
  split_ifs with hten
  · -- no entry of a tenant that is not of the roster
    refine ⟨h, rfl, (remove_of_get_eq_none _ (h.get_eq_none ?_)).symm⟩
    rw [TenantRoster.quota, isNone_iff_eq_none.mp hten, bind_none]
  · split
    · rename_i hnone
      exact ⟨h, rfl, (remove_of_get_eq_none _ hnone).symm⟩
    · rename_i oldBytes hold
      refine ⟨?_, rfl, rfl⟩
      have hkey : entryKey.isIn entryKey.tenant entryKey.ns = true :=
        EntryKey.isIn_iff.mpr ⟨rfl, rfl⟩
      have hrel := release_tally hkey hold
      have hwithin := h.within entryKey.tenant entryKey.ns
      rw [h.counted] at hwithin ⊢
      rw [hrel]
      refine h.update (fun owner' name' hne ↦ tally_remove_of_not ?_) ?_ ?_
      · exact isIn_eq_false hne entryKey.key
      · intro quota hquota
        obtain ⟨hbytes, hents⟩ := NamespaceUsage.exceeds_eq_false_iff.mp (hwithin quota hquota)
        rw [← hrel, NamespaceUsage.exceeds_eq_false_iff]
        exact ⟨(Nat.sub_le _ _).trans hbytes, (Nat.sub_le _ _).trans hents⟩
      · intro other bytes hget
        rw [get_remove] at hget
        split_ifs at hget
        exact h.owned other bytes hget

/-- Assumes: a client of the tenant. The entry is gone from the ledger. -/
theorem removeEntry_spec (h : Sound i) (hten : i.roster.tenantOf client = some tenant)
    (ns key : String) :
    Sound (i.removeEntry client ns key).2 ∧ (i.removeEntry client ns key).2.roster = i.roster ∧
      (i.removeEntry client ns key).2.entries = i.entries.remove ⟨tenant.id, ns, key⟩ := by
  rw [removeEntry, hten]
  dsimp only
  split_ifs with hquota
  · -- no entry of a namespace that the tenant does not own
    refine ⟨h, rfl, (remove_of_get_eq_none _ (h.get_eq_none ?_)).symm⟩
    rw [TenantRoster.quota_of_tenantOf hten ns, isNone_iff_eq_none.mp hquota]
  · exact removeEntryForTenant_spec h _

theorem tally_evicted (ledger : Ledger) (owner : TenantId) (ns : String) :
    tally (ledger.retain fun entryKey ↦ !entryKey.isIn owner ns) owner ns = {} := by
  have hpart : (ledger.retain fun entryKey ↦ !entryKey.isIn owner ns).retain (·.isIn owner ns) =
      ∅ := by
    refine ext_get fun entryKey ↦ ?_
    rw [get_retain, get_retain, get_empty]
    cases entryKey.isIn owner ns <;> rfl
  rw [tally, hpart]
  rfl

theorem tally_evicted_of_ne (ledger : Ledger) {ns ns' : String}
    (hne : (owner', ns') ≠ (owner, ns)) :
    tally (ledger.retain fun entryKey ↦ !entryKey.isIn owner ns) owner' ns' =
      tally ledger owner' ns' := by
  have hpart : (ledger.retain fun entryKey ↦ !entryKey.isIn owner ns).retain (·.isIn owner' ns') =
      ledger.retain (·.isIn owner' ns') := by
    refine ext_get fun entryKey ↦ ?_
    rw [get_retain, get_retain, get_retain]
    split_ifs with hin hkept
    · rfl
    · obtain ⟨rfl, rfl⟩ := EntryKey.isIn_iff.mp hin
      rw [isIn_eq_false hne.symm] at hkept
      exact absurd rfl hkept
    · rfl
  rw [tally, tally, hpart]

theorem sameLedger_beginSubscription (i : ConsumerIsolation) (client : String) :
    SameLedger i (i.beginSubscription client).2 := by
  have hreq := sameLedger_admitRequest i client
  unfold beginSubscription
  split
  · simp_all only
  · rename_i tenant j hj
    rw [hj] at hreq
    dsimp only
    split_ifs
    · exact hreq
    · exact ⟨hreq.roster, hreq.entries, hreq.usage⟩

/-- Assumes: a client of the tenant. Either the eviction is refused, or no entry of the namespace is
left in the ledger. -/
theorem evictNamespace_spec (h : Sound i) (hten : i.roster.tenantOf client = some tenant)
    (ns : String) :
    Sound (i.evictNamespace client ns).2 ∧ (i.evictNamespace client ns).2.roster = i.roster ∧
      ((i.evictNamespace client ns).2.entries = i.entries ∧
          (∃ error, (i.evictNamespace client ns).1 = .error error) ∨
        (i.evictNamespace client ns).2.entries =
            i.entries.retain (fun entryKey ↦ !entryKey.isIn tenant.id ns) ∧
          ∃ removed, (i.evictNamespace client ns).1 = .ok removed) := by
  have hsame := sameLedger_admitRequest i client
  unfold evictNamespace
  split
  · rename_i error j hj
    rw [hj] at hsame
    exact ⟨h.of_sameLedger hsame, hsame.roster, .inl ⟨hsame.entries, error, rfl⟩⟩
  · rename_i found j hj
    have hfound := tenantOf_of_admitRequest (congrArg Prod.fst hj)
    cases hten.symm.trans hfound
    rw [hj] at hsame
    refine ⟨?_, hsame.roster, .inr ⟨by rw [hsame.entries], _, rfl⟩⟩
    have hsound := h.of_sameLedger hsame
    rw [← tally_evicted]
    refine hsound.update (fun owner' name' hne ↦ tally_evicted_of_ne j.entries hne) ?_ ?_
    · intro quota _
      rw [tally_evicted, NamespaceUsage.exceeds_eq_false_iff]
      exact ⟨Nat.zero_le _, Nat.zero_le _⟩
    · intro entryKey bytes hget
      rw [get_retain] at hget
      split_ifs at hget
      exact hsound.owned entryKey bytes hget

end ConsumerIsolation

end HydraCache.Client
