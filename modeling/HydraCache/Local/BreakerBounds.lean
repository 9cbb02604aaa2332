import HydraCache.Local.LoadBreaker

/-!
# The load breaker over whole histories

A registry starts without records and takes any sequence of calls, made at any instants.
`breaker_bounds` says what holds after each of them: how many records there are, between which
limits a backoff lies and how it grows, how many failures it takes to open a key, and how many loads
of a key are let through while it is open. An open key is let through one load for each time it
opens. After a success the key is closed and nothing limits its loads until it opens again
(`loads_between_openings`).
-/

set_option autoImplicit false

namespace HydraCache.Local

open Lib KeyMap AList

namespace LoadBreakerEntries

variable {policy : LoadBreakerPolicy} {entries : LoadBreakerEntries} {key : Key}

/-! ### Histories -/

/-- A call of the registry. A report comes with the order in which the map is walked. -/
inductive Call where
  | beforeLoad (now : ℕ) (key : Key)
  | afterLoadResult (now : ℕ) (walk : List Key) (key : Key) (success : Bool)

/-- This result of a load of the key is reported. -/
def Call.reports (key : Key) (result : Bool) : Call → Bool
  | .afterLoadResult _ _ other success => other = key && success = result
  | .beforeLoad .. => false

variable (policy) (entries)

def apply : Call → LoadBreakerEntries
  | .beforeLoad now key => (beforeLoad policy entries now key).2
  | .afterLoadResult now walk key success => afterLoadResult policy entries now walk key success

/-- The call lets a load of the key through. -/
def admits (key : Key) : Call → Bool
  | .beforeLoad now other => other = key && (beforeLoad policy entries now key).1 = .allow
  | .afterLoadResult .. => false

/-- The call opens the key, or opens it once more. -/
def opens (key : Key) (call : Call) : Bool :=
  call.reports key false && isOpen (apply policy entries call) key

/-- The calls of a history at which an event happens. -/
def occurrences (event : LoadBreakerEntries → Call → Bool) : LoadBreakerEntries → List Call → ℕ
  | _, [] => 0
  | entries, call :: calls =>
    (event entries call).toNat + occurrences event (apply policy entries call) calls

variable {policy entries} {entry : LoadBreaker}

/-- The failures reported for the key since its last success. -/
def failuresSince (key : Key) (calls : List Call) : ℕ :=
  calls.foldl (fun count call ↦ if call.reports key true then 0
    else count + (call.reports key false).toNat) 0

theorem failuresSince_concat (key : Key) (calls : List Call) (call : Call) :
    failuresSince key (calls ++ [call]) =
      if call.reports key true then 0
        else failuresSince key calls + (call.reports key false).toNat := by
  rw [failuresSince, List.foldl_append]
  rfl

/-! ### What a record satisfies -/

/-- A record of a key for which `since` failures were reported since its last success. -/
structure Sound (policy : LoadBreakerPolicy) (since : ℕ) (entry : LoadBreaker) : Prop where
  failures_le : entry.failures ≤ since
  threshold_le : entry.isOpen = true → policy.failureThreshold ≤ since
  initial_le : policy.initialBackoff ≤ entry.backoff
  backoff_le : entry.backoff ≤ policy.maxBackoff

/-- The backoffs of an enabled policy. -/
structure Ordered (policy : LoadBreakerPolicy) : Prop where
  initial_le : policy.initialBackoff ≤ policy.maxBackoff
  max_le : policy.maxBackoff ≤ maxDuration

theorem sound_closed (hpolicy : Ordered policy) (now since : ℕ) :
    Sound policy since (LoadBreaker.closed policy now) :=
  ⟨since.zero_le, nofun, le_refl _, hpolicy.initial_le⟩

theorem doubleBackoff_eq (hpolicy : Ordered policy) (backoff : ℕ) :
    doubleBackoff backoff policy.maxBackoff = min (2 * backoff) policy.maxBackoff := by
  have hmax := hpolicy.max_le
  unfold doubleBackoff
  omega

theorem Sound.failed {since : ℕ} (h : Sound policy since entry)
    (hpolicy : Ordered policy) (now : ℕ) : Sound policy (since + 1) (entry.failed policy now) := by
  have hfailures := h.failures_le
  have hcount : min (entry.failures + 1) maxHalfWord ≤ since + 1 := by omega
  unfold LoadBreaker.failed
  dsimp only
  split_ifs with hopen hthreshold
  · refine ⟨hcount, fun _ ↦ (h.threshold_le hopen).trans since.le_succ, ?_, ?_⟩
    · have hinit := h.initial_le
      have hpolicy' := hpolicy.initial_le
      dsimp only
      rw [doubleBackoff_eq hpolicy]
      omega
    · exact min_le_right _ _
  · exact ⟨hcount, fun _ ↦ hthreshold.trans hcount, le_refl _, hpolicy.initial_le⟩
  · exact ⟨hcount, fun h ↦ absurd h hopen, h.initial_le, h.backoff_le⟩

/-- The registry after a history. -/
structure Bounded (policy : LoadBreakerPolicy) (calls : List Call) (entries : LoadBreakerEntries) :
    Prop where
  size_le : entries.size ≤ policy.maxTrackedKeys
  sound : ∀ key entry, entries.lookup key = some entry →
    Sound policy (failuresSince key calls) entry

/-- Room for a record is made within the limit. -/
theorem size_insert_of_makeRoom {walk : List Key} {roomy : LoadBreakerEntries}
    (h : makeRoom policy entries walk key = some roomy)
    (hsize : entries.size ≤ policy.maxTrackedKeys) :
    KeyMap.size (roomy.insert key entry) ≤ policy.maxTrackedKeys := by
  unfold makeRoom at h
  split_ifs at h with hfull
  · obtain ⟨candidate, hcand, rfl⟩ := Option.map_eq_some_iff.mp h
    have hclosed := (List.mem_filter.mp (List.argmin_mem hcand)).2
    obtain ⟨_, hlookup, _⟩ := (Option.any_eq_true _ _).mp hclosed
    have hmem : candidate ∈ entries := lookup_isSome.mp (by rw [hlookup]; rfl)
    have herased := size_erase_of_mem hmem
    have hins := size_insert_le (entries.erase candidate) key entry
    omega
  · cases h
    by_cases hkey : key ∈ entries
    · rwa [size_insert_of_mem hkey]
    · have hnone : (entries.lookup key).isNone :=
        Option.isNone_iff_eq_none.mpr (lookup_eq_none.mpr hkey)
      have hroom : ¬ policy.maxTrackedKeys ≤ entries.size := fun hle ↦ hfull ⟨hnone, hle⟩
      have hins := size_insert_le entries key entry
      omega

section Step

variable {calls : List Call} (hpolicy : Ordered policy) (h : Bounded policy calls entries)
include h

theorem Bounded.prune (now : ℕ) :
    Bounded policy calls (pruneInactiveEntries entries now policy.inactiveEntryTtl) where
  size_le := (List.length_filter_le _ _).trans h.size_le
  sound key entry hlookup := h.sound key entry ((thins_prune ..).lookup entry hlookup)

theorem Bounded.beforeLoad (now : ℕ) (key : Key) :
    Bounded policy (calls ++ [.beforeLoad now key]) (beforeLoad policy entries now key).2 := by
  have hsince : ∀ other, failuresSince other (calls ++ [.beforeLoad now key]) =
      failuresSince other calls :=
    fun other ↦ failuresSince_concat ..
  suffices hkept :
    Bounded policy calls (LoadBreakerEntries.beforeLoad policy entries now key).2 from
    ⟨hkept.size_le, fun other entry hlookup ↦ hsince other ▸ hkept.sound other entry hlookup⟩
  rcases beforeLoad_cases policy entries now key with
    ⟨heq, _⟩ | ⟨heq, _⟩ | ⟨probe, hopen, hlookup, _, heq⟩
  · rwa [heq]
  · rw [heq]
    exact h.prune now
  · rw [heq]
    have hprune := (thins_prune entries now policy.inactiveEntryTtl key).isOpen probe hlookup hopen
    refine ⟨?_, fun other entry hentry ↦ ?_⟩
    · rw [size_insert_of_mem (lookup_isSome.mp (by rw [hprune]; rfl))]
      exact (h.prune now).size_le
    · obtain ⟨rfl, rfl⟩ | hentry := of_lookup_insert hentry
      · have hprobe := h.sound _ probe hlookup
        exact ⟨hprobe.failures_le, hprobe.threshold_le, hprobe.initial_le, hprobe.backoff_le⟩
      · exact (h.prune now).sound other entry hentry

include hpolicy in
theorem Bounded.afterLoadResult (now : ℕ) (walk : List Key) (key : Key) (success : Bool)
    (hena : policy.isEnabled = true) :
    Bounded policy (calls ++ [.afterLoadResult now walk key success])
      (afterLoadResult policy entries now walk key success) := by
  -- a report counts for its own key only
  have hsince (other : Key) (hne : other ≠ key) :
      failuresSince other (calls ++ [.afterLoadResult now walk key success]) =
        failuresSince other calls := by
    rw [failuresSince_concat]
    simp [Call.reports, hne.symm]
  have hprune := h.prune now
  rw [LoadBreakerEntries.afterLoadResult, if_pos hena]
  dsimp only
  split_ifs with hsuccess
  · refine ⟨(size_erase_le _ _).trans hprune.size_le, fun other entry hlookup ↦ ?_⟩
    obtain ⟨hne, hlookup⟩ := of_lookup_erase hlookup
    rw [hsince other hne]
    exact hprune.sound other entry hlookup
  · split
    · rename_i hfull
      refine ⟨hprune.size_le, fun other entry hlookup ↦ ?_⟩
      have hne : other ≠ key := by
        rintro rfl
        cases (lookup_eq_none_of_makeRoom hfull).symm.trans hlookup
      rw [hsince other hne]
      exact hprune.sound other entry hlookup
    · rename_i roomy hroomy
      refine ⟨size_insert_of_makeRoom hroomy hprune.size_le, fun other entry hlookup ↦ ?_⟩
      have hkept (other : Key) (entry : LoadBreaker) (hlookup : roomy.lookup other = some entry) :
          Sound policy (failuresSince other calls) entry :=
        hprune.sound other entry ((thins_makeRoom hroomy other).lookup entry hlookup)
      rw [lookup_insert_apply] at hlookup
      split_ifs at hlookup with hother
      · cases hlookup
        subst hother
        rw [failuresSince_concat]
        simp only [Call.reports, hsuccess, decide_true, Bool.true_and]
        refine Sound.failed ?_ hpolicy now
        cases hentry : roomy.lookup other with
        | none => exact sound_closed hpolicy ..
        | some entry => exact hkept other entry hentry
      · rw [hsince other hother]
        exact hkept other entry hlookup

end Step

theorem bounded_foldl (hpolicy : Ordered policy) (hena : policy.isEnabled = true)
    (calls : List Call) :
    Bounded policy calls (calls.foldl (apply policy) ∅) := by
  induction calls using List.reverseRecOn with
  | nil => exact ⟨Nat.zero_le _, nofun⟩
  | append_singleton calls call ih =>
    rw [List.foldl_append]
    cases call with
    | beforeLoad now key => exact ih.beforeLoad now key
    | afterLoadResult now walk key success =>
      exact ih.afterLoadResult hpolicy now walk key success hena

/-! ### Open keys -/

section Open

variable (hlookup : entries.lookup key = some entry) (hopen : entry.isOpen = true)
  (hena : policy.isEnabled = true)
include hlookup hopen hena

/-- A failure for an open key opens it once more. -/
theorem lookup_afterLoadResult_of_isOpen (now : ℕ) (walk : List Key) :
    (afterLoadResult policy entries now walk key false).lookup key =
      some (entry.failed policy now) := by
  have hprune := (thins_prune entries now policy.inactiveEntryTtl key).isOpen entry hlookup hopen
  rw [afterLoadResult, if_pos hena, if_neg Bool.false_ne_true, makeRoom, hprune,
    if_neg fun hfull ↦ Bool.false_ne_true hfull.1]
  dsimp only
  rw [lookup_insert, hprune]
  rfl

/-- An open key stays open under every call but a success for it. A load of it is let through when
no probe of it is out, and from then on one is, until the key opens once more. -/
theorem isOpen_apply (call : Call) (hcall : call.reports key true = false) :
    ∃ next, (apply policy entries call).lookup key = some next ∧ next.isOpen = true ∧
      (admits policy entries key call).toNat + entry.halfOpen.toNat ≤
        (opens policy entries key call).toNat + next.halfOpen.toNat := by
  cases call with
  | beforeLoad now other =>
    rcases ne_or_eq key other with hne | rfl
    · refine ⟨entry, (thins_beforeLoad (.inl hne)).isOpen entry hlookup hopen, hopen, ?_⟩
      simp [admits, hne.symm]
    · rcases beforeLoad_cases policy entries now key with
        ⟨_, hdisabled⟩ | ⟨_, hrej⟩ | ⟨probe, hprobe, hlookup', hhalf, heq⟩
      · exact absurd (hena.symm.trans hdisabled) nofun
      · have hrejected := hrej (isOpen_eq_true_iff.mpr ⟨entry, hlookup, hopen⟩)
        refine ⟨entry, (thins_beforeLoad (.inr hrejected)).isOpen entry hlookup hopen, hopen, ?_⟩
        simp [admits, hrejected]
      · cases hlookup.symm.trans hlookup'
        refine ⟨entry.probed hprobe, ?_, hprobe, ?_⟩
        · rw [apply, heq]
          exact lookup_insert _
        · rw [hhalf]
          exact (Bool.toNat_le _).trans (Nat.le_add_left _ _)
  | afterLoadResult now walk other success =>
    rcases ne_or_eq key other with hne | rfl
    · refine ⟨entry, (thins_afterLoadResult hne).isOpen entry hlookup hopen, hopen, ?_⟩
      exact Nat.add_le_add_right (Nat.zero_le _) _
    · obtain rfl : success = false := by simpa [Call.reports] using hcall
      have hfailed := lookup_afterLoadResult_of_isOpen hlookup hopen hena now walk
      have hopened : (entry.failed policy now).isOpen = true := by
        rw [LoadBreaker.failed, if_pos hopen]
        rfl
      refine ⟨_, hfailed, hopened, ?_⟩
      have hopens : opens policy entries key (.afterLoadResult now walk key false) = true := by
        simp only [opens, Call.reports, apply, decide_true, Bool.and_true, Bool.true_and]
        exact isOpen_eq_true_iff.mpr ⟨_, hfailed, hopened⟩
      rw [hopens, admits]
      exact (Nat.zero_add _).trans_le ((Bool.toNat_le _).trans (Nat.le_add_right _ _))

theorem admitted_le (calls : List Call) (hcalls : ∀ call ∈ calls, call.reports key true = false) :
    occurrences policy (admits policy · key) entries calls + entry.halfOpen.toNat ≤
      occurrences policy (opens policy · key) entries calls + 1 := by
  induction calls generalizing entries entry with
  | nil => exact (Nat.zero_add _).trans_le (Bool.toNat_le _)
  | cons call calls ih =>
    obtain ⟨next, hnext, hopen', hstep⟩ :=
      isOpen_apply hlookup hopen hena call (hcalls call List.mem_cons_self)
    have hrest := ih hnext hopen' fun other hother ↦ hcalls other (List.mem_cons_of_mem _ hother)
    rw [occurrences, occurrences]
    omega

end Open

/-! ### The registry at any point of a history -/

/-- Over every history of an enabled registry: the number of records is limited, an open breaker
goes with a success for its key only, a backoff lies between the initial and the longest one and
doubles up to that limit on a failure of an open key, a key is open only after as many failures as
the threshold says with no success in between, and while no success is reported the loads of an open
key are at most one more than the times it opens again: at most one between two opens. -/
theorem breaker_bounds (failureThreshold limit ttl : ℕ) (initial longest : Fin (maxDuration + 1))
    (calls : List Call) :
    let policy := ((LoadBreakerPolicy.new failureThreshold initial longest).withMaxTrackedKeys
      limit).withInactiveEntryTtl ttl
    let entries : LoadBreakerEntries := calls.foldl (apply policy) ∅
    entries.size ≤ policy.maxTrackedKeys ∧
      (∀ key entry, entries.lookup key = some entry →
        policy.initialBackoff ≤ entry.backoff ∧ entry.backoff ≤ policy.maxBackoff) ∧
      (∀ key entry now walk, entries.lookup key = some entry → entry.isOpen = true →
        ∃ next, (afterLoadResult policy entries now walk key false).lookup key = some next ∧
          next.backoff = min (2 * entry.backoff) policy.maxBackoff) ∧
      ∀ key, isOpen entries key = true → policy.failureThreshold ≤ failuresSince key calls ∧
        (∀ call, call.reports key true = false → isOpen (apply policy entries call) key = true) ∧
        ∀ later, (∀ call ∈ later, call.reports key true = false) →
          occurrences policy (admits policy · key) entries later ≤
            occurrences policy (opens policy · key) entries later + 1 := by
  intro policy entries
  have hena : policy.isEnabled = true := decide_eq_true (lt_max_of_lt_right Nat.two_pos)
  have hpolicy : Ordered policy := by
    refine ⟨le_max_right _ _, max_le (Nat.lt_succ_iff.mp longest.isLt) ?_⟩
    unfold LoadBreakerPolicy.normalizeBackoff
    split_ifs
    · decide
    · exact Nat.lt_succ_iff.mp initial.isLt
  have hbound : Bounded policy calls entries := bounded_foldl hpolicy hena calls
  refine ⟨hbound.size_le, fun key entry hlookup ↦ ?_, fun key entry now walk hlookup hopen ↦ ?_,
    fun key hopen ↦ ?_⟩
  · exact ⟨(hbound.sound key entry hlookup).initial_le, (hbound.sound key entry hlookup).backoff_le⟩
  · refine ⟨_, lookup_afterLoadResult_of_isOpen hlookup hopen hena .., ?_⟩
    rw [LoadBreaker.failed, if_pos hopen]
    exact doubleBackoff_eq hpolicy _
  · obtain ⟨entry, hlookup, hopen⟩ := isOpen_eq_true_iff.mp hopen
    refine ⟨(hbound.sound key entry hlookup).threshold_le hopen, fun call hcall ↦ ?_,
      fun later hlater ↦ ?_⟩
    · obtain ⟨next, hnext, hopen', _⟩ := isOpen_apply hlookup hopen hena call hcall
      exact isOpen_eq_true_iff.mpr ⟨next, hnext, hopen'⟩
    · exact le_of_add_le_left (admitted_le hlookup hopen hena later hlater)

/-- Two failures open the key. Its probe succeeds, and two more loads are let through before it
opens again. -/
theorem loads_between_openings : let policy := LoadBreakerPolicy.new 2 1 8
    let fail (now : ℕ) : Call := .afterLoadResult now [] "k" false
    let between : List Call :=
      [.beforeLoad 5 "k", .afterLoadResult 6 [] "k" true, .beforeLoad 7 "k",
      .beforeLoad 7 "k", fail 8]
    let closed := apply policy ∅ (fail 0)
    let opened := apply policy closed (fail 1)
    opens policy closed "k" (fail 1) = true ∧
      opens policy (between.foldl (apply policy) opened) "k" (fail 9) = true ∧
      occurrences policy (opens policy · "k") opened between = 0 ∧
      occurrences policy (admits policy · "k") opened between = 3 := by
  decide +kernel

end LoadBreakerEntries

end HydraCache.Local
