import HydraCache.Client.Isolation

/-!
# Rate limits that are not lifted

Isolation counts the requests, the fair share and the subscriptions of every tenant, and refuses
what would go beyond a limit with a time after which to try again. Nothing takes a counter down:
isolation reads no clock, and it is not told of the end of a subscription.

`Tallied` says what an event does to the counters of a tenant. A refusal leaves a counter at its
limit, and there it stays (`Blocked`), so a refusal is temporary in the histories without one and in
no other: those in which the tenant makes at most as many requests as one window allows, and begins
at most as many subscriptions as it may have at a time (`refusals_temporary_iff`).

Scope. Time and the end of a subscription are events of the history; the calls are those that the
client surface makes.
-/

set_option autoImplicit false

namespace HydraCache.Client.ConsumerIsolation

open Lib List

/-! ### Histories -/

/-- A call that isolation decides; `commits` is what the commit of a write reports. -/
inductive Call where
  | request (client : String)
  | put (client ns key : String) (valueBytes : ℕ) (conditionHolds commits : Bool)
  | batchPut (client ns : String) (entries : List (String × ℕ)) (commits : Bool)
  | removeEntry (client ns key : String)
  | beginSubscription (client : String)
  | evictNamespace (client ns : String)

def Call.client : Call → String
  | request client | put client .. | batchPut client .. | removeEntry client ..
    | beginSubscription client
  | evictNamespace client _ => client

/-- The answer to a call, without what it carries when the call is admitted. -/
def answer (i : ConsumerIsolation) : Call → Except AdmissionRejection Unit × ConsumerIsolation
  | .request client => ((i.admitRequest client).1.map fun _ ↦ (), (i.admitRequest client).2)
  | .put client ns key valueBytes conditionHolds commits =>
    let admitted := i.admitPutIfCommitted client ns key valueBytes conditionHolds
      (fun outside : Unit ↦ (commits, outside)) ()
    (admitted.1.map fun _ ↦ (), admitted.2.1)
  | .batchPut client ns entries commits =>
    let admitted := i.admitBatchPutIfCommitted client ns entries
      (fun outside : Unit ↦ (commits, outside)) ()
    (admitted.1.map fun _ ↦ (), admitted.2.1)
  | .removeEntry client ns key =>
    ((i.removeEntry client ns key).1.map fun _ ↦ (), (i.removeEntry client ns key).2)
  | .beginSubscription client => i.beginSubscription client
  | .evictNamespace client ns =>
    ((i.evictNamespace client ns).1.map fun _ ↦ (), (i.evictNamespace client ns).2)

inductive Event where
  | call (call : Call)
  | elapse (millis : ℕ)
  | subscriptionEnds (client : String)

def after (i : ConsumerIsolation) : Event → ConsumerIsolation
  | .call call => (i.answer call).2
  -- isolation reads no clock, and nothing is called when a stream ends
  | .elapse _ | .subscriptionEnds _ => i

def afterAll (i : ConsumerIsolation) (history : List Event) : ConsumerIsolation :=
  history.foldl after i

/-- The size of a batch does not refuse it. -/
def batchFits (config : ConsumerIsolationConfig) (entries : List (String × ℕ)) : Bool :=
  decide (entries.length ≤ config.maxBatchItems) &&
    decide (entries.foldl (fun total entry ↦ saturatingAdd total entry.2) 0 ≤
      config.maxRequestBytes) &&
    !entries.any fun entry ↦ decide (config.maxValueBytes < entry.2)

namespace Event

variable (roster : TenantRoster) (config : ConsumerIsolationConfig) (tenant : TenantId)

/-- A call of a client of the tenant. -/
def isCallOf : Event → Bool
  | .call made => decide (roster.resolve made.client = some tenant)
  | _ => false

/-- A call of the tenant that comes to be counted: one that its size does not refuse before. -/
def charges : Event → Bool
  | .call made => decide (roster.resolve made.client = some tenant) &&
    match made with
    | .request _ | .beginSubscription _ | .evictNamespace .. => true
    | .put _ _ _ valueBytes _ _ => decide (valueBytes ≤ config.maxValueBytes)
    | .batchPut _ _ entries _ => batchFits config entries
    | .removeEntry .. => false
  | _ => false

/-- The beginning of a subscription of the tenant. -/
def subscribes : Event → Bool
  | .call (.beginSubscription client) => decide (roster.resolve client = some tenant)
  | _ => false

/-- The end of a subscription of the tenant. -/
def unsubscribes : Event → Bool
  | .subscriptionEnds client => decide (roster.resolve client = some tenant)
  | _ => false

def millis : Event → ℕ
  | .elapse millis => millis
  | _ => 0

end Event

/-! ### Counters -/

structure Counters where
  requests : ℕ
  fairShare : ℕ
  subscriptions : ℕ

def counters (i : ConsumerIsolation) (tenant : TenantId) : Counters where
  requests := (i.requestCounts.lookup tenant).getD 0
  fairShare := (i.fairShareCounts.lookup tenant).getD 0
  subscriptions := (i.subscriptions.lookup tenant).getD 0

/-- The limits are at least one and fit a word. -/
structure PositiveLimits (tenant : Tenant) : Prop where
  rate : 0 < tenant.rateLimitPerWindow ∧ tenant.rateLimitPerWindow ≤ maxWord
  fairShare : 0 < tenant.fairSharePerWindow ∧ tenant.fairSharePerWindow ≤ maxWord
  subscriptions : 0 < tenant.maxSubscriptions ∧ tenant.maxSubscriptions ≤ maxWord

section

variable (tenant : Tenant) (c : Counters)

/-- What the admission of a request does to the counters of its tenant. -/
inductive Admission : Except AdmissionRejection Tenant → Counters → Prop where
  | overRate : tenant.rateLimitPerWindow ≤ c.requests →
      Admission (.error (.rejectRate tenant.id 50)) c
  | overShare : c.requests < tenant.rateLimitPerWindow → tenant.fairSharePerWindow ≤ c.fairShare →
      Admission (.error (.rejectRate tenant.id 50)) { c with requests := c.requests + 1 }
  | admitted : c.requests < tenant.rateLimitPerWindow → c.fairShare < tenant.fairSharePerWindow →
      Admission (.ok tenant) { c with requests := c.requests + 1, fairShare := c.fairShare + 1 }

end

variable {i : ConsumerIsolation} {tenant : Tenant} {client ns key : String} {id : TenantId}
  {conditionHolds commits : Bool} {entries : List (String × ℕ)} {j : ConsumerIsolation}
  {valueBytes : ℕ} {α : Type}

theorem admission_admitRequest (hlim : PositiveLimits tenant)
    (hten : i.roster.tenantOf client = some tenant) :
    Admission tenant (i.counters tenant.id) (i.admitRequest client).1
      ((i.admitRequest client).2.counters tenant.id) := by
  rw [admitRequest_eq]
  rw [hten]
  dsimp only
  split_ifs with hrate hshare
  · exact .overRate hrate
  · have hreqs := saturatingSucc_of_lt ((not_le.mp hrate).trans_le hlim.rate.2)
    have hcnts := Admission.overShare (c := i.counters tenant.id) (not_le.mp hrate) hshare
    simpa only [counters, AList.lookup_insert, Option.getD_some, hreqs] using hcnts
  · have hreqs := saturatingSucc_of_lt ((not_le.mp hrate).trans_le hlim.rate.2)
    have hfair := saturatingSucc_of_lt ((not_le.mp hshare).trans_le hlim.fairShare.2)
    have hcnts :=
      Admission.admitted (c := i.counters tenant.id) (not_le.mp hrate) (not_le.mp hshare)
    simpa only [counters, AList.lookup_insert, Option.getD_some, hreqs, hfair] using hcnts

/-- Assumes: a client of another tenant, or of none. -/
theorem counters_admitRequest_of_ne (h : i.roster.resolve client ≠ some id) :
    (i.admitRequest client).2.counters id = i.counters id := by
  rw [admitRequest_eq]
  cases hten : i.roster.tenantOf client with
  | none => rfl
  | some other =>
    have hid : id ≠ other.id := by
      rintro rfl
      exact h (TenantRoster.tenant_of_tenantOf hten).1
    dsimp only
    split_ifs <;> simp only [counters, KeyMap.lookup_insert_apply, if_neg hid]

/-! ### What a call counts -/

/-- The result refuses for the rate, the fair share or the subscriptions of a tenant. -/
def Refuses {α : Type} (id : TenantId) (result : Except AdmissionRejection α) : Prop :=
  ∃ retryAfter, result = .error (.rejectRate id retryAfter)

/-- Two states with one roster, one configuration and the same counters. -/
structure SameCounts (i j : ConsumerIsolation) : Prop where
  roster : j.roster = i.roster
  config : j.config = i.config
  requestCounts : j.requestCounts = i.requestCounts
  fairShareCounts : j.fairShareCounts = i.fairShareCounts
  subscriptions : j.subscriptions = i.subscriptions

theorem SameCounts.counters (h : SameCounts i j) (id : TenantId) :
    j.counters id = i.counters id := by
  rw [ConsumerIsolation.counters, h.requestCounts, h.fairShareCounts, h.subscriptions]
  rfl

theorem SameCounts.refl (i : ConsumerIsolation) : SameCounts i i := ⟨rfl, rfl, rfl, rfl, rfl⟩

/-- The call counts as a request, and is refused for a rate as the request is. -/
structure CountsAsRequest (request : Except AdmissionRejection Tenant × ConsumerIsolation)
    (answer : Except AdmissionRejection Unit × ConsumerIsolation) : Prop where
  state : SameCounts request.2 answer.2
  refuses : ∀ id, Refuses id answer.1 ↔ Refuses id request.1

@[simp] theorem not_refuses_ok (id : TenantId) (value : α) : ¬ Refuses id (.ok value) := by
  rintro ⟨_, h⟩
  cases h

@[simp] theorem refuses_error_iff {error : AdmissionRejection} :
    Refuses id (.error error : Except AdmissionRejection α) ↔
      ∃ retryAfter, error = .rejectRate id retryAfter := by
  simp only [Refuses, Except.error.injEq]

@[simp] theorem refuses_map_iff {α β : Type} {f : α → β} {result : Except AdmissionRejection α} :
    Refuses id (result.map f) ↔ Refuses id result := by
  cases result <;> simp [Except.map]

/-- Assumes: a request that was not refused for its rate, as the call was not. -/
theorem CountsAsRequest.of_ok {answer : Except AdmissionRejection Unit ×
    ConsumerIsolation} (hstate : SameCounts j answer.2) (h : ∀ id, ¬ Refuses id answer.1) :
    CountsAsRequest (.ok tenant, j) answer where
  state := hstate
  refuses id := iff_of_false (h id) (not_refuses_ok id tenant)

theorem CountsAsRequest.of_error (error : AdmissionRejection) (j : ConsumerIsolation) :
    CountsAsRequest (.error error, j) (.error error, j) where
  state := .refl j
  refuses _ := by simp

theorem countsAsRequest_request :
    CountsAsRequest (i.admitRequest client) (i.answer (.request client)) := by
  rw [answer]
  obtain ⟨result, j⟩ := i.admitRequest client
  cases result with
  | error error => exact .of_error error j
  | ok => exact .of_ok (.refl j) (by simp)

theorem countsAsRequest_admitRows {rows : TenantId → List (EntryKey × ℕ)}
    {limit : Option AdmissionRejection} (hlimit : limit = none) :
    CountsAsRequest (i.admitRequest client)
      (let admitted := i.admitRows client ns conditionHolds (fun outside ↦ (commits, outside))
        () limit rows
      (admitted.1.map fun _ ↦ (), admitted.2.1)) := by
  rw [hlimit, admitRows, admitWrite]
  obtain ⟨result, j⟩ := i.admitRequest client
  cases result with
  | error error => exact .of_error error j
  | ok tenant =>
    dsimp only
    cases tenant.quota ns with
    | none => exact .of_ok (.refl j) (by simp)
    | some =>
      dsimp only
      split_ifs
      · exact .of_ok (.refl j) (by simp)
      · cases commits with
        | false => exact .of_ok (.refl j) (by simp)
        | true => exact .of_ok ⟨rfl, rfl, rfl, rfl, rfl⟩ (by simp)
      · exact .of_ok (.refl j) (by simp)

theorem countsAsRequest_put (hsize : valueBytes ≤ i.config.maxValueBytes) :
    CountsAsRequest (i.admitRequest client)
      (i.answer (.put client ns key valueBytes conditionHolds commits)) := by
  rw [answer, admitPutIfCommitted_eq]
  exact countsAsRequest_admitRows (if_neg (not_lt.mpr hsize))

theorem countsAsRequest_batchPut (hsize : batchFits i.config entries = true) :
    CountsAsRequest (i.admitRequest client) (i.answer (.batchPut client ns entries commits)) := by
  simp only [batchFits, Bool.and_eq_true, decide_eq_true_iff, Bool.not_eq_true'] at hsize
  obtain ⟨⟨hitems, hbytes⟩, hvals⟩ := hsize
  rw [answer, admitBatchPutIfCommitted_eq]
  refine countsAsRequest_admitRows ?_
  rw [batchLimit, length_map, foldl_map, any_map, if_neg (not_lt.mpr hitems),
    if_neg (not_lt.mpr hbytes)]
  exact if_neg (Bool.eq_false_iff.mp hvals)

theorem countsAsRequest_evictNamespace :
    CountsAsRequest (i.admitRequest client) (i.answer (.evictNamespace client ns)) := by
  rw [answer, evictNamespace]
  obtain ⟨result, j⟩ := i.admitRequest client
  cases result with
  | error error => exact .of_error error j
  | ok => exact .of_ok ⟨rfl, rfl, rfl, rfl, rfl⟩ (by simp)

/-- The call is not counted, and not refused for a rate. -/
structure Uncounted (i : ConsumerIsolation)
    (answer : Except AdmissionRejection Unit × ConsumerIsolation) :
    Prop where
  state : SameCounts i answer.2
  answers : ∀ id, ¬ Refuses id answer.1

theorem uncounted_removeEntry : Uncounted i (i.answer (.removeEntry client ns key)) := by
  rw [answer, removeEntry]
  cases i.roster.tenantOf client with
  | none => exact ⟨.refl i, by simp⟩
  | some =>
    dsimp only
    split_ifs
    · exact ⟨.refl i, by simp⟩
    · refine ⟨?_, by simp⟩
      unfold removeEntryForTenant
      split_ifs
      · exact .refl i
      · split
        · exact .refl i
        · exact ⟨rfl, rfl, rfl, rfl, rfl⟩

theorem uncounted_put (hsize : i.config.maxValueBytes < valueBytes) :
    Uncounted i (i.answer (.put client ns key valueBytes conditionHolds commits)) := by
  rw [answer, admitPutIfCommitted, if_pos hsize]
  exact ⟨.refl i, by simp⟩

theorem uncounted_batchPut (hsize : batchFits i.config entries = false) :
    Uncounted i (i.answer (.batchPut client ns entries commits)) := by
  rw [answer, admitBatchPutIfCommitted]
  split_ifs with hitems hbytes hvals
  · exact ⟨.refl i, by simp⟩
  · exact ⟨.refl i, by simp⟩
  · exact ⟨.refl i, by simp⟩
  · simp [batchFits, not_lt.mp hitems, not_lt.mp hbytes, Bool.eq_false_iff.mpr hvals] at hsize

/-! ### What an event counts -/

/-- The event is a call that is refused for a rate of the tenant. -/
def RefusesAt (i : ConsumerIsolation) (id : TenantId) : Event → Prop
  | .call call => Refuses id (i.answer call).1
  | _ => False

section

variable (tenant : Tenant) (c : Counters) (refused : Prop)

/-- What an event does to the counters of a tenant, by whether it counts as a request and as a
subscription of it. -/
inductive Tallied : (charged subscribed : Bool) → Counters → Prop where
  | uncounted : ¬ refused → Tallied false false c
  | overRate (subscribed : Bool) : refused → tenant.rateLimitPerWindow ≤ c.requests →
      Tallied true subscribed c
  | overShare (subscribed : Bool) : refused → c.requests < tenant.rateLimitPerWindow →
      tenant.fairSharePerWindow ≤ c.fairShare →
      Tallied true subscribed { c with requests := c.requests + 1 }
  | overSubscriptions : refused → c.requests < tenant.rateLimitPerWindow →
      c.fairShare < tenant.fairSharePerWindow → tenant.maxSubscriptions ≤ c.subscriptions →
      Tallied true true { c with requests := c.requests + 1, fairShare := c.fairShare + 1 }
  | admitted : ¬ refused → c.requests < tenant.rateLimitPerWindow →
      c.fairShare < tenant.fairSharePerWindow →
      Tallied true false { c with requests := c.requests + 1, fairShare := c.fairShare + 1 }
  | subscribed : ¬ refused → c.requests < tenant.rateLimitPerWindow →
      c.fairShare < tenant.fairSharePerWindow → c.subscriptions < tenant.maxSubscriptions →
      Tallied true true ⟨c.requests + 1, c.fairShare + 1, c.subscriptions + 1⟩

end

theorem resolve_of_refuses_admitRequest (h : Refuses id (i.admitRequest client).1) :
    i.roster.resolve client = some id := by
  obtain ⟨retryAfter, h⟩ := h
  rw [admitRequest_eq] at h
  cases hten : i.roster.tenantOf client with
  | none => rw [hten] at h; cases h
  | some =>
    rw [hten] at h
    dsimp only at h
    split_ifs at h <;> cases h <;> exact (TenantRoster.tenant_of_tenantOf hten).1

/-- Assumes: a tenant of the roster. The tenant of a client with its id is this one. -/
theorem tenantOf_eq_of_resolve (hten : i.roster.tenant tenant.id = some tenant)
    (hres : i.roster.resolve client = some tenant.id) : i.roster.tenantOf client = some tenant := by
  obtain ⟨other, hother, hid⟩ := TenantRoster.tenantOf_of_resolve hres
  have hrost := (TenantRoster.tenant_of_tenantOf hother).2
  rw [hid, hten] at hrost
  rw [hother, Option.some.inj hrost]

/-- Two states with one roster and one configuration. -/
structure SameLimits (i j : ConsumerIsolation) : Prop where
  roster : j.roster = i.roster
  config : j.config = i.config

theorem config_admitRequest (i : ConsumerIsolation) (client : String) :
    (i.admitRequest client).2.config = i.config := by
  rw [admitRequest_eq]
  cases i.roster.tenantOf client with
  | none => rfl
  | some =>
    dsimp only
    split_ifs <;> rfl

section

variable {answer : Except AdmissionRejection Unit × ConsumerIsolation}

theorem Tallied.of_countsAsRequest (hlim : PositiveLimits tenant)
    (hten : i.roster.tenant tenant.id = some tenant)
    (h : CountsAsRequest (i.admitRequest client) answer) :
    SameLimits i answer.2 ∧
    Tallied tenant (i.counters tenant.id) (Refuses tenant.id answer.1)
      (decide (i.roster.resolve client = some tenant.id)) false (answer.2.counters tenant.id) := by
  refine ⟨⟨h.state.roster.trans (sameLedger_admitRequest ..).roster,
    h.state.config.trans (config_admitRequest ..)⟩, ?_⟩
  rw [h.state.counters, propext (h.refuses ..)]
  by_cases hres : i.roster.resolve client = some tenant.id
  · rw [decide_eq_true hres]
    have hadm := admission_admitRequest hlim (tenantOf_eq_of_resolve hten hres)
    generalize (i.admitRequest client).1 = result, (i.admitRequest client).2.counters tenant.id = c
      at hadm ⊢
    cases hadm with
    | overRate hrate => exact .overRate false ⟨50, rfl⟩ hrate
    | overShare hrate hshare => exact .overShare false ⟨50, rfl⟩ hrate hshare
    | admitted hrate hshare => exact .admitted (not_refuses_ok _ _) hrate hshare
  · rw [decide_eq_false hres, counters_admitRequest_of_ne hres]
    exact .uncounted fun href ↦ hres (resolve_of_refuses_admitRequest href)

theorem Tallied.of_uncounted (h : Uncounted i answer) : SameLimits i answer.2 ∧
    Tallied tenant (i.counters tenant.id) (Refuses tenant.id answer.1) false false
      (answer.2.counters tenant.id) := by
  refine ⟨⟨h.state.roster, h.state.config⟩, ?_⟩
  rw [h.state.counters]
  exact .uncounted (h.answers tenant.id)

theorem counters_subscriptions_insert (j : ConsumerIsolation) (owner id : TenantId) (count : ℕ) :
    counters { j with subscriptions := j.subscriptions.insert owner count } id =
      if id = owner then { j.counters id with subscriptions := count } else j.counters id := by
  simp only [counters, KeyMap.lookup_insert_apply]
  split_ifs <;> rfl

theorem tallied_beginSubscription (hlim : PositiveLimits tenant)
    (hten : i.roster.tenantOf client = some tenant) :
    Tallied tenant (i.counters tenant.id) (Refuses tenant.id (i.beginSubscription client).1)
      true true
      ((i.beginSubscription client).2.counters tenant.id) := by
  have hadm := admission_admitRequest hlim hten
  rw [beginSubscription]
  generalize i.admitRequest client = request at hadm ⊢
  obtain ⟨result, j⟩ := request
  generalize hc : j.counters tenant.id = c at hadm
  cases hadm with
  | overRate hrate =>
    rw [hc]
    exact .overRate true ⟨50, rfl⟩ hrate
  | overShare hrate hshare =>
    dsimp only
    rw [hc]
    exact .overShare true ⟨50, rfl⟩ hrate hshare
  | admitted hrate hshare =>
    have hsubs : (j.subscriptions.lookup tenant.id).getD 0 =
        (i.counters ..).subscriptions := congrArg Counters.subscriptions hc
    dsimp only
    rw [hsubs]
    split_ifs with hmax
    · rw [hc]
      exact .overSubscriptions ⟨50, rfl⟩ hrate hshare hmax
    · have hlt := not_le.mp hmax
      rw [counters_subscriptions_insert, if_pos rfl, hc,
        saturatingSucc_of_lt (hlt.trans_le hlim.subscriptions.2)]
      exact .subscribed (not_refuses_ok _ _) hrate hshare hlt

/-- Assumes: a client of another tenant, or of none. -/
theorem tallied_beginSubscription_of_ne (hres : i.roster.resolve client ≠ some tenant.id) :
    Tallied tenant (i.counters tenant.id) (Refuses tenant.id (i.beginSubscription client).1)
      false false
      ((i.beginSubscription client).2.counters tenant.id) := by
  have hcnts := counters_admitRequest_of_ne hres
  have href : ¬ Refuses tenant.id (i.admitRequest client).1 :=
    mt resolve_of_refuses_admitRequest hres
  have howner : ∀ other, (i.admitRequest client).1 = .ok other → tenant.id ≠ other.id :=
    fun other hother hid ↦
      hres (hid ▸ (TenantRoster.tenant_of_tenantOf (tenantOf_of_admitRequest hother)).1)
  rw [beginSubscription]
  generalize i.admitRequest client = request at hcnts href howner ⊢
  obtain ⟨result, j⟩ := request
  cases result with
  | error =>
    rw [hcnts]
    exact .uncounted fun h ↦ href (refuses_error_iff.mpr (refuses_error_iff.mp h))
  | ok other =>
    have hne := howner other rfl
    dsimp only
    split_ifs
    · rw [hcnts]
      refine .uncounted fun h ↦ ?_
      obtain ⟨_, hrate⟩ := refuses_error_iff.mp h
      exact hne (AdmissionRejection.rejectRate.inj hrate).1.symm
    · rw [counters_subscriptions_insert, if_neg hne, hcnts]
      exact .uncounted (not_refuses_ok _ _)

theorem sameLimits_beginSubscription (i : ConsumerIsolation) (client : String) :
    SameLimits i (i.beginSubscription client).2 := by
  refine ⟨(sameLedger_beginSubscription ..).roster, ?_⟩
  have hconf := config_admitRequest i client
  unfold beginSubscription
  generalize i.admitRequest client = request at hconf ⊢
  obtain ⟨result, j⟩ := request
  cases result with
  | error => exact hconf
  | ok =>
    dsimp only
    split_ifs <;> exact hconf

end

section

variable (hlim : PositiveLimits tenant) (hten : i.roster.tenant tenant.id = some tenant)
include hlim hten

theorem tallied_after (event : Event) : SameLimits i (i.after event) ∧
    Tallied tenant (i.counters tenant.id) (i.RefusesAt tenant.id event)
      (event.charges i.roster i.config tenant.id) (event.subscribes i.roster tenant.id)
      ((i.after event).counters tenant.id) := by
  cases event with
  | elapse | subscriptionEnds => exact ⟨⟨rfl, rfl⟩, .uncounted id⟩
  | call call =>
    cases call with
    | request =>
      rw [Event.charges, Bool.and_true]
      exact Tallied.of_countsAsRequest hlim hten countsAsRequest_request
    | evictNamespace =>
      rw [Event.charges, Bool.and_true]
      exact Tallied.of_countsAsRequest hlim hten countsAsRequest_evictNamespace
    | removeEntry =>
      rw [Event.charges, Bool.and_false]
      exact Tallied.of_uncounted uncounted_removeEntry
    | beginSubscription client =>
      rw [Event.charges, Bool.and_true]
      refine ⟨sameLimits_beginSubscription i client, ?_⟩
      by_cases hres : i.roster.resolve client = some tenant.id
      · rw [Event.subscribes, Call.client, decide_eq_true hres]
        exact tallied_beginSubscription hlim (tenantOf_eq_of_resolve hten hres)
      · rw [Event.subscribes, Call.client, decide_eq_false hres]
        exact tallied_beginSubscription_of_ne hres
    | put _ _ _ valueBytes =>
      rw [Event.charges]
      by_cases hsize : valueBytes ≤ i.config.maxValueBytes
      · rw [decide_eq_true hsize, Bool.and_true]
        exact Tallied.of_countsAsRequest hlim hten (countsAsRequest_put hsize)
      · rw [decide_eq_false hsize, Bool.and_false]
        exact Tallied.of_uncounted (uncounted_put (not_le.mp hsize))
    | batchPut _ _ entries =>
      rw [Event.charges]
      cases hsize : batchFits i.config entries with
      | true =>
        rw [Bool.and_true]
        exact Tallied.of_countsAsRequest hlim hten (countsAsRequest_batchPut hsize)
      | false =>
        rw [Bool.and_false]
        exact Tallied.of_uncounted (uncounted_batchPut hsize)

/-! ### Histories of refusals -/

theorem sameLimits_afterAll (history : List Event) : SameLimits i (i.afterAll history) := by
  induction history generalizing i with
  | nil => exact ⟨rfl, rfl⟩
  | cons event _ ih =>
    have hstep := (tallied_after hlim hten event).1
    have hrest := ih (by rwa [hstep.roster])
    exact ⟨hrest.roster.trans hstep.roster, hrest.config.trans hstep.config⟩

/-- Some event of the history is refused for a rate of the tenant. -/
def Refused (i : ConsumerIsolation) (id : TenantId) (history : List Event) : Prop :=
  ∃ before event rest, history = before ++ event :: rest ∧ (i.afterAll before).RefusesAt id event

omit hlim hten in
theorem refused_cons {event : Event} {history : List Event} :
    i.Refused id (event :: history) ↔
      i.RefusesAt id event ∨ (i.after event).Refused id history := by
  constructor
  · rintro ⟨before, found, rest, hhist, href⟩
    cases before with
    | nil =>
      obtain ⟨rfl, rfl⟩ := List.cons.inj hhist
      exact .inl href
    | cons _ before =>
      obtain ⟨rfl, hrest⟩ := List.cons.inj hhist
      exact .inr ⟨before, found, rest, hrest, href⟩
  · rintro (href | ⟨before, found, rest, rfl, href⟩)
    · exact ⟨[], event, history, rfl, href⟩
    · exact ⟨event :: before, found, rest, rfl, href⟩

/-- The counter has room for so many more. -/
def Room (count more limit : ℕ) : Prop := more = 0 ∨ count + more ≤ limit

/-- Assumes: a tenant of the roster. No event is refused for a rate of it if and only if its
counters have room for what the history counts. -/
theorem not_refused_iff (history : List Event) :
    ¬ i.Refused tenant.id history ↔
      Room (i.counters tenant.id).requests
        (history.countP (·.charges i.roster i.config tenant.id)) tenant.rateLimitPerWindow ∧
      Room (i.counters tenant.id).fairShare
        (history.countP (·.charges i.roster i.config tenant.id)) tenant.fairSharePerWindow ∧
      Room (i.counters tenant.id).subscriptions
        (history.countP (·.subscribes i.roster tenant.id)) tenant.maxSubscriptions := by
  induction history generalizing i with
  | nil =>
    refine iff_of_true ?_ ⟨.inl rfl, .inl rfl, .inl rfl⟩
    rintro ⟨before, event, rest, hhist, -⟩
    exact append_ne_nil_of_right_ne_nil before (cons_ne_nil event rest) hhist.symm
  | cons event _ ih =>
    obtain ⟨hsame, htally⟩ := tallied_after hlim hten event
    have hrest := ih (i := i.after event) (by rw [hsame.roster]; exact hten)
    rw [hsame.roster, hsame.config] at hrest
    rw [refused_cons, not_or, hrest, countP_cons, countP_cons]
    generalize (i.after event).counters tenant.id = c' at htally ⊢
    generalize i.counters tenant.id = c at htally ⊢
    generalize event.charges i.roster i.config tenant.id = charged,
      event.subscribes i.roster tenant.id = subscribed at htally ⊢
    unfold Room
    cases htally with
    | uncounted hnot =>
      simp only [hnot, not_false_eq_true, true_and, Bool.false_eq_true, if_false, add_zero]
    | overRate subscribed href hrate | overShare subscribed href hrate hshare
    | overSubscriptions href hrate hshare hmax =>
      simp only [href, not_true_eq_false, false_and, if_true, false_iff]
      omega
    | admitted hnot =>
      simp only [hnot, not_false_eq_true, true_and, if_true, Bool.false_eq_true, if_false, add_zero]
      omega
    | subscribed hnot =>
      simp only [hnot, not_false_eq_true, true_and, if_true]
      omega

end

/-! ### Refusals are not lifted -/

/-- A counter is at its limit. -/
def Blocked (tenant : Tenant) (c : Counters) : Prop :=
  tenant.rateLimitPerWindow ≤ c.requests ∨ tenant.fairSharePerWindow ≤ c.fairShare ∨
    tenant.maxSubscriptions ≤ c.subscriptions

section Tallied

variable {c c' : Counters} {refused : Prop} {charged subscribed : Bool}

section

variable (h : Tallied tenant c refused charged subscribed c')
include h

theorem Tallied.blocked_of_refused (href : refused) : Blocked tenant c' := by
  cases h with
  | uncounted hnot => exact absurd href hnot
  | overRate _ _ hrate => exact .inl hrate
  | overShare _ _ _ hshare => exact .inr (.inl hshare)
  | overSubscriptions _ _ _ hmax => exact .inr (.inr hmax)
  | admitted hnot | subscribed hnot => exact absurd href hnot

theorem Tallied.charged_of_refused (href : refused) : charged = true := by
  cases h with
  | uncounted hnot => exact absurd href hnot
  | _ => rfl

/-- No counter goes down. -/
theorem Tallied.blocked (hblock : Blocked tenant c) : Blocked tenant c' := by
  unfold Blocked at hblock ⊢
  cases h with
  | uncounted | overRate => exact hblock
  | overShare | overSubscriptions | admitted | subscribed =>
    dsimp only
    omega

end

theorem Tallied.refused_of_blocked (h : Tallied tenant c refused true true c')
    (hblock : Blocked tenant c) : refused := by
  unfold Blocked at hblock
  cases h with
  | overRate _ href | overShare _ href | overSubscriptions href => exact href
  | subscribed => omega

end Tallied

section

variable (hlim : PositiveLimits tenant) (hten : i.roster.tenant tenant.id = some tenant)
  {call : Call}
include hlim hten

theorem blocked_afterAll (history : List Event) (hblock : Blocked tenant (i.counters tenant.id)) :
    Blocked tenant ((i.afterAll history).counters tenant.id) := by
  induction history generalizing i with
  | nil => exact hblock
  | cons event _ ih =>
    obtain ⟨hsame, htally⟩ := tallied_after hlim hten event
    refine ih ?_ (htally.blocked hblock)
    rwa [hsame.roster]

/-- Events without a call of the tenant, in which the time to wait passes and as many of its
subscriptions end as were begun. -/
structure Quiet (roster : TenantRoster) (tenant : TenantId) (retryAfter begun : ℕ)
    (quiet : List Event) :
    Prop where
  noCalls : ∀ event ∈ quiet, event.isCallOf roster tenant = false
  elapsed : retryAfter ≤ (quiet.map Event.millis).sum
  ended : begun ≤ quiet.countP (·.unsubscribes roster tenant)

/-- The next request and the next subscription of a client of the tenant are admitted. -/
def Admits (i : ConsumerIsolation) (tenant : TenantId) (client : String) : Prop :=
  i.roster.resolve client = some tenant →
    (i.answer (.request client)).1 = .ok () ∧ (i.answer (.beginSubscription client)).1 = .ok ()

/-- Every refusal of the history for a rate, a fair share or the subscriptions of the tenant is
temporary: once the time to wait has passed without calls of the tenant and its subscriptions have
ended, its clients are admitted again. -/
def RefusalsTemporary (i : ConsumerIsolation) (tenant : TenantId) (history : List Event) : Prop :=
  ∀ before call rest retryAfter, history = before ++ .call call :: rest →
    ((i.afterAll before).answer call).1 = .error (.rejectRate tenant retryAfter) →
    ∀ quiet, Quiet i.roster tenant retryAfter
        (List.countP (Event.subscribes i.roster tenant) (before ++ [.call call])) quiet →
      ∀ client, (i.afterAll (before ++ .call call :: quiet)).Admits tenant client

/-- The client of a call that is refused for a rate of a tenant is one of its clients. -/
theorem resolve_of_refuses_answer (h : Refuses tenant.id (i.answer call).1) :
    i.roster.resolve call.client = some tenant.id := by
  have hcharges := (tallied_after hlim hten (.call call)).2.charged_of_refused h
  exact of_decide_eq_true (Bool.and_eq_true_iff.mp hcharges).1

/-- A client that was refused is not admitted, whatever happens after the refusal. -/
theorem not_admits_of_refuses (h : Refuses tenant.id (i.answer call).1) (quiet : List Event) :
    ¬ (i.afterAll (.call call :: quiet)).Admits tenant.id call.client := by
  intro hadmits
  have hrost := (sameLimits_afterAll hlim hten (.call call :: quiet)).roster
  have hres := resolve_of_refuses_answer hlim hten h
  obtain ⟨hsame, htally⟩ := tallied_after hlim hten (.call call)
  have hblock := htally.blocked_of_refused h
  have hlater : Blocked tenant ((i.afterAll (.call call :: quiet)).counters tenant.id) := by
    refine blocked_afterAll hlim ?_ quiet hblock
    rwa [hsame.roster]
  rw [← hrost] at hres hten
  have htally := tallied_beginSubscription hlim (tenantOf_eq_of_resolve hten hres)
  obtain ⟨retryAfter, href⟩ := htally.refused_of_blocked hlater
  cases href.symm.trans (hadmits hres).2

end

/-- A time to wait, and then the ends of subscriptions of a client. -/
def waiting (retryAfter begun : ℕ) (client : String) : List Event :=
  .elapse retryAfter :: List.replicate begun (.subscriptionEnds client)

theorem quiet_waiting {roster : TenantRoster} (retryAfter begun : ℕ)
    (hres : roster.resolve client = some id) :
    Quiet roster id retryAfter begun (waiting retryAfter begun client) where
  noCalls event hevent := by
    rcases mem_cons.mp hevent with rfl | hevent
    · rfl
    · rw [eq_of_mem_replicate hevent]
      rfl
  elapsed := by
    rw [waiting, map_cons, sum_cons]
    exact Nat.le_add_right _ _
  ended := by
    have hends : (Event.subscriptionEnds client).unsubscribes roster id = true :=
      decide_eq_true hres
    rw [waiting, countP_cons, countP_replicate, if_pos hends]
    exact Nat.le_add_right _ _

/-- Assumes: a tenant of the roster with positive limits. Its refusals are temporary in the
histories in which it makes at most as many requests as one window allows it, in rate and in fair
share, and begins at most as many subscriptions as it may have at a time, and in no other. -/
theorem refusals_temporary_iff {roster : TenantRoster} (config : ConsumerIsolationConfig)
    (hlimits : PositiveLimits tenant) (htenant : roster.tenant tenant.id = some tenant)
    (history : List Event) :
    (new roster config).RefusalsTemporary tenant.id history ↔
      history.countP (·.charges roster config tenant.id) ≤ tenant.rateLimitPerWindow ∧
      history.countP (·.charges roster config tenant.id) ≤ tenant.fairSharePerWindow ∧
      history.countP (·.subscribes roster tenant.id) ≤ tenant.maxSubscriptions := by
  have hnot := not_refused_iff (i := new roster config) hlimits htenant history
  have hroom : ∀ more limit, Room 0 more limit ↔ more ≤ limit := by
    intro more limit
    rw [Room]
    omega
  rw [show (new roster config).counters tenant.id = ⟨0, 0, 0⟩ from rfl, hroom, hroom, hroom] at hnot
  refine Iff.trans ?_ hnot
  constructor
  · -- a refusal leaves a counter at its limit, where it is after any time to wait
    rintro htemp ⟨before, event, rest, rfl, href⟩
    cases event with
    | elapse | subscriptionEnds => exact href
    | call call =>
      obtain ⟨retryAfter, hans⟩ := href
      have hrost := (sameLimits_afterAll (i := new roster config) hlimits htenant before).roster
      have howner : ((new roster config).afterAll before).roster.tenant tenant.id =
          some tenant := by
        rwa [hrost]
      have hres := resolve_of_refuses_answer hlimits howner ⟨retryAfter, hans⟩
      rw [hrost] at hres
      have hadmits := htemp before call rest retryAfter rfl hans _
        (quiet_waiting retryAfter _ hres) call.client
      rw [afterAll, foldl_append] at hadmits
      exact not_admits_of_refuses hlimits howner ⟨retryAfter, hans⟩ _ hadmits
  · intro hnever before call rest retryAfter hhist hans
    exact absurd ⟨before, .call call, rest, hhist, retryAfter, hans⟩ hnever

/-- A tenant with one client, which may make two requests and have one subscription. -/
def meteredTenant : Tenant where
  id := "metered"
  clientIds := ["probe"]
  namespaces := (∅ : KeyMap String NamespaceQuota).insert "orders" ⟨4, 2⟩
  rateLimitPerWindow := 2
  fairSharePerWindow := 2
  maxSubscriptions := 1

def meteredRoster : TenantRoster := (TenantRoster.new [meteredTenant]).toOption.getD .empty

theorem positiveLimits_meteredTenant : PositiveLimits meteredTenant := by
  constructor <;> decide +kernel

theorem tenant_meteredRoster : meteredRoster.tenant meteredTenant.id = some meteredTenant := by
  rfl

theorem refusals_temporary_metered :
    (new meteredRoster {}).RefusalsTemporary "metered"
      [.call (.request "probe"), .elapse 10, .call (.beginSubscription "probe"),
        .call (.request "other")] :=
  (refusals_temporary_iff {} positiveLimits_meteredTenant tenant_meteredRoster _).mpr
    (by decide +kernel)

/-- The third request is refused with 50 milliseconds to wait, and so is the one after them. -/
theorem refusal_not_lifted :
    ¬ (new meteredRoster {}).RefusalsTemporary "metered"
      [.call (.request "probe"), .call (.request "probe"), .call (.request "probe")] := by
  intro htemp
  have hquiet : Quiet (new meteredRoster {}).roster "metered" 50 0 (waiting 50 0 "probe") :=
    quiet_waiting 50 0 (by decide +kernel)
  have hadmits := (htemp [.call (.request "probe"), .call (.request "probe")] (.request "probe") []
    50 rfl (by decide +kernel) _ hquiet "probe" (by decide +kernel)).1
  exact absurd hadmits (by decide +kernel)

end HydraCache.Client.ConsumerIsolation
