import HydraCache.Local.TagIndex
import Mathlib.Data.List.MinMax

/-!
# The load breaker registry

A key whose loads keep failing is opened: loads of it are rejected until a backoff has elapsed, and
then one load is let through as a probe and the key marked half-open. A result of any load of the
key is reported back. Success removes the record. Failure ends the probe, opens the key again and
doubles the backoff, up to a limit.

The registry keeps a bounded number of records. Closed ones go when they have been inactive for too
long, or the least recently active of them when a new key needs room; open ones stay.

An open record is touched by nothing but the operations on its own key (`thins_beforeLoad`,
`thins_afterLoadResult`). A rejection is for a probe or for a backoff that has not elapsed
(`beforeLoad_eq_reject_iff`), and a report leaves its key without a probe
(`halfOpen_afterLoadResult`).

Scope. The counters of the statistics are left out. Instants and durations are nanoseconds.
-/

set_option autoImplicit false

namespace HydraCache.Local

open Lib Option AList

/-! ### The policy -/

structure LoadBreakerPolicy where
  failureThreshold : ℕ
  initialBackoff : ℕ
  maxBackoff : ℕ
  maxTrackedKeys : ℕ
  inactiveEntryTtl : ℕ

namespace LoadBreakerPolicy

def millisecond : ℕ := 1000000

def normalizeBackoff (backoff : ℕ) : ℕ := if backoff = 0 then millisecond else backoff

def defaultMaxTrackedKeys : ℕ := 4096

def defaultInactiveEntryTtl : ℕ := 300 * 1000 * millisecond

def new (failureThreshold initialBackoff maxBackoff : ℕ) : LoadBreakerPolicy where
  failureThreshold := max failureThreshold 2
  initialBackoff := normalizeBackoff initialBackoff
  maxBackoff := max maxBackoff (normalizeBackoff initialBackoff)
  maxTrackedKeys := defaultMaxTrackedKeys
  inactiveEntryTtl := defaultInactiveEntryTtl

section

variable (policy : LoadBreakerPolicy)

def withMaxTrackedKeys (limit : ℕ) : LoadBreakerPolicy :=
  { policy with maxTrackedKeys := max limit 1 }

def withInactiveEntryTtl (ttl : ℕ) : LoadBreakerPolicy :=
  { policy with inactiveEntryTtl := normalizeBackoff ttl }

def isEnabled : Bool := 0 < policy.failureThreshold

end

end LoadBreakerPolicy

/-! ### Records -/

/-- The longest duration. -/
def maxDuration : ℕ := maxWord * 1000000000 + 999999999

def doubleBackoff (current maxBackoff : ℕ) : ℕ := min (min (2 * current) maxDuration) maxBackoff

/-- The record of a key. Only an open one can be half-open. -/
structure LoadBreaker where
  failures : ℕ
  openedAt : Option ℕ
  backoff : ℕ
  halfOpen : Bool
  lastActivity : ℕ
  openedAt_of_halfOpen : halfOpen = true → openedAt.isSome = true

namespace LoadBreaker

def isOpen (entry : LoadBreaker) : Bool := entry.openedAt.isSome

/-- The record of a key without failures. -/
def closed (policy : LoadBreakerPolicy) (now : ℕ) : LoadBreaker where
  failures := 0
  openedAt := none
  backoff := policy.initialBackoff
  halfOpen := false
  lastActivity := now
  openedAt_of_halfOpen := nofun

/-- The record of a key that is open while its probe is out. -/
def probed (entry : LoadBreaker) (hopen : entry.isOpen = true) : LoadBreaker :=
  { entry with halfOpen := true, openedAt_of_halfOpen := fun _ ↦ hopen }

/-- One more failure. -/
def failed (policy : LoadBreakerPolicy) (now : ℕ) (entry : LoadBreaker) : LoadBreaker :=
  let failures := min (entry.failures + 1) maxHalfWord
  if entry.isOpen then
    { entry with
      failures
      openedAt := some now
      backoff := doubleBackoff entry.backoff policy.maxBackoff
      halfOpen := false
      lastActivity := now
      openedAt_of_halfOpen := nofun }
  else if policy.failureThreshold ≤ failures then
    { entry with
      failures
      openedAt := some now
      backoff := policy.initialBackoff
      halfOpen := false
      lastActivity := now
      openedAt_of_halfOpen := nofun }
  else { entry with failures, lastActivity := now }

end LoadBreaker

/-! ### The registry -/

inductive LoadBreakerDecision where
  | allow
  | reject
deriving DecidableEq

abbrev LoadBreakerEntries := KeyMap Key LoadBreaker

namespace LoadBreakerEntries

variable (policy : LoadBreakerPolicy) (entries : LoadBreakerEntries) (now : ℕ)

def pruneInactiveEntries (entries : LoadBreakerEntries) (now inactiveEntryTtl : ℕ) :
    LoadBreakerEntries :=
  KeyMap.retain (fun _ entry ↦ entry.isOpen || now - entry.lastActivity < inactiveEntryTtl) entries

def beforeLoad (key : Key) : LoadBreakerDecision × LoadBreakerEntries :=
  if policy.isEnabled then
    let pruned := pruneInactiveEntries entries now policy.inactiveEntryTtl
    match pruned.lookup key with
    | none => (.allow, pruned)
    | some entry =>
      if hopen : entry.isOpen then
        if entry.halfOpen then (.reject, pruned)
        else if now - entry.openedAt.get hopen < entry.backoff then (.reject, pruned)
        else (.allow, pruned.insert key (entry.probed hopen))
      else (.allow, pruned)
  else (.allow, entries)

/-- The closed record that was active least recently. Among several the first in the order in which
the map is walked. -/
def evictionCandidate (walk : List Key) : Option Key :=
  (walk.filter fun key ↦ (entries.lookup key).any (!·.isOpen)).argmin fun key ↦
    ((entries.lookup key).map LoadBreaker.lastActivity).getD 0

/-- The records with room for one of `key`, or `none` where all slots are taken by open records. -/
def makeRoom (walk : List Key) (key : Key) : Option LoadBreakerEntries :=
  if (entries.lookup key).isNone ∧ policy.maxTrackedKeys ≤ entries.size then
    (evictionCandidate entries walk).map entries.erase
  else some entries

def afterLoadResult (walk : List Key) (key : Key) (success : Bool) : LoadBreakerEntries :=
  if policy.isEnabled then
    let pruned := pruneInactiveEntries entries now policy.inactiveEntryTtl
    if success then pruned.erase key
    else
      match makeRoom policy pruned walk key with
      | none => pruned
      | some roomy =>
        roomy.insert key (((roomy.lookup key).getD (.closed policy now)).failed policy now)
  else entries

/-- The breaker of the key is open. -/
def isOpen (key : Key) : Bool := (entries.lookup key).any LoadBreaker.isOpen

/-- A probe of the key is out. -/
def halfOpen (key : Key) : Bool := (entries.lookup key).any LoadBreaker.halfOpen

/-! ### What the operations keep -/

variable {policy entries now} {key other : Key} {entry : LoadBreaker} {walk : List Key}
  {success : Bool}

theorem isOpen_of_halfOpen (h : entry.halfOpen = true) : entry.isOpen = true :=
  entry.openedAt_of_halfOpen h

theorem halfOpen_eq_true_iff :
    halfOpen entries key = true ↔
      ∃ entry, entries.lookup key = some entry ∧ entry.halfOpen = true :=
  any_eq_true _ _

theorem isOpen_eq_true_iff :
    isOpen entries key = true ↔ ∃ entry, entries.lookup key = some entry ∧ entry.isOpen = true :=
  any_eq_true _ _

theorem mem_keys_of_halfOpen (h : halfOpen entries key = true) : key ∈ entries.keys := by
  obtain ⟨entry, hlook, _⟩ := halfOpen_eq_true_iff.mp h
  exact mem_keys.mp (lookup_isSome.mp (by rw [hlook]; rfl))

/-- What is kept under a key when records are dropped: no record is new, and an open one stays. -/
structure Thins (before after : LoadBreakerEntries) (key : Key) : Prop where
  lookup : ∀ entry, after.lookup key = some entry → before.lookup key = some entry
  isOpen : ∀ entry, before.lookup key = some entry → entry.isOpen = true →
    after.lookup key = some entry

section Thins

variable {before between after : LoadBreakerEntries}

theorem Thins.of_lookup_eq (h : after.lookup key = before.lookup key) : Thins before after key :=
  ⟨fun _ hlook ↦ h ▸ hlook, fun _ hlook _ ↦ h ▸ hlook⟩

theorem Thins.trans (h : Thins before between key) (h' : Thins between after key) :
    Thins before after key where
  lookup entry hlook := h.lookup entry (h'.lookup entry hlook)
  isOpen entry hlook hopen := h'.isOpen entry (h.isOpen entry hlook hopen) hopen

theorem thins_prune (entries : LoadBreakerEntries) (now inactiveEntryTtl : ℕ) (key : Key) :
    Thins entries (pruneInactiveEntries entries now inactiveEntryTtl) key where
  lookup entry h := by
    rw [pruneInactiveEntries, KeyMap.lookup_retain, filter_eq_some_iff] at h
    exact h.1
  isOpen entry hlook hopen := by
    rw [pruneInactiveEntries, KeyMap.lookup_retain, hlook, filter_some, hopen]
    rfl

end Thins

/-- The records are as they were, or pruned, or pruned with a probe of the key let through. -/
theorem beforeLoad_cases (policy : LoadBreakerPolicy) (entries : LoadBreakerEntries) (now : ℕ)
    (key : Key) :
    beforeLoad policy entries now key = (.allow, entries) ∧ policy.isEnabled = false ∨
      (beforeLoad policy entries now key).2 =
          pruneInactiveEntries entries now policy.inactiveEntryTtl ∧
        (isOpen entries key = true → (beforeLoad policy entries now key).1 = .reject) ∨
      ∃ entry hopen, entries.lookup key = some entry ∧ entry.halfOpen = false ∧
        beforeLoad policy entries now key = (.allow,
          (pruneInactiveEntries entries now policy.inactiveEntryTtl).insert key
            (LoadBreaker.probed entry hopen)) := by
  have hthins := thins_prune entries now policy.inactiveEntryTtl key
  unfold beforeLoad
  split_ifs with hena
  · dsimp only
    split
    · rename_i hnone
      refine .inr (.inl ⟨rfl, fun hopen ↦ ?_⟩)
      obtain ⟨entry, hentry, hopen⟩ := isOpen_eq_true_iff.mp hopen
      exact absurd ((hthins.isOpen entry hentry hopen).symm.trans hnone) nofun
    · rename_i entry hentry
      have hlook := hthins.lookup entry hentry
      split_ifs with hopen hhalf
      · exact .inr (.inl ⟨rfl, fun _ ↦ rfl⟩)
      · exact .inr (.inl ⟨rfl, fun _ ↦ rfl⟩)
      · exact .inr (.inr ⟨entry, hopen, hlook, Bool.eq_false_iff.mpr hhalf, rfl⟩)
      · refine .inr (.inl ⟨rfl, fun h ↦ absurd ?_ hopen⟩)
        rwa [isOpen, hlook] at h
  · exact .inl ⟨rfl, Bool.eq_false_iff.mpr hena⟩

/-- A rejected load, and one of another key, only drops records. -/
theorem thins_beforeLoad (h : other ≠ key ∨ (beforeLoad policy entries now key).1 = .reject) :
    Thins entries (beforeLoad policy entries now key).2 other := by
  rcases beforeLoad_cases policy entries now key with ⟨heq, _⟩ | ⟨heq, _⟩ | ⟨_, _, _, _, heq⟩
  · rw [heq]
    exact .of_lookup_eq rfl
  · rw [heq]
    exact thins_prune ..
  · rw [heq] at h ⊢
    exact (thins_prune ..).trans (.of_lookup_eq (lookup_insert_ne (h.resolve_right nofun)))

/-- A load is rejected while a probe of its key is out or the key's backoff runs. -/
theorem beforeLoad_eq_reject_iff :
    (beforeLoad policy entries now key).1 = .reject ↔
      policy.isEnabled = true ∧ ∃ entry openedAt, entries.lookup key = some entry ∧
        entry.openedAt = some openedAt ∧
        (entry.halfOpen = true ∨ now - openedAt < entry.backoff) := by
  constructor
  · intro h
    unfold beforeLoad at h
    split_ifs at h with hena
    · dsimp only at h
      split at h
      · cases h
      · rename_i entry hentry
        refine ⟨hena, entry, ?_⟩
        split_ifs at h with hopen hhalf helapsed
        · refine ⟨entry.openedAt.get hopen, (thins_prune ..).lookup _ hentry, ?_, .inl hhalf⟩
          exact (some_get hopen).symm
        · refine ⟨entry.openedAt.get hopen, (thins_prune ..).lookup _ hentry, ?_, .inr helapsed⟩
          exact (some_get hopen).symm
  · rintro ⟨hena, entry, openedAt, hlook, hopened, hreason⟩
    have hopen : entry.isOpen = true := by rw [LoadBreaker.isOpen, hopened]; rfl
    have hget : entry.openedAt.get hopen = openedAt := by simp [hopened]
    rw [beforeLoad, if_pos hena]
    dsimp only
    rw [(thins_prune ..).isOpen entry hlook hopen]
    dsimp only
    rw [dif_pos hopen]
    split_ifs with hhalf helapsed
    · rfl
    · rfl
    · rw [hget] at helapsed
      exact absurd hreason (not_or.mpr ⟨hhalf, helapsed⟩)

theorem thins_makeRoom {roomy : LoadBreakerEntries}
    (h : makeRoom policy entries walk key = some roomy) (other : Key) :
    Thins entries roomy other := by
  unfold makeRoom at h
  split_ifs at h
  · obtain ⟨candidate, hcand, rfl⟩ := map_eq_some_iff.mp h
    constructor
    · intro entry hlook
      exact (KeyMap.of_lookup_erase hlook).2
    · intro entry hlook hopen
      have hclosed := (List.mem_filter.mp (List.argmin_mem hcand)).2
      have hne : other ≠ candidate := by
        rintro rfl
        rw [hlook] at hclosed
        simp [hopen] at hclosed
      rwa [lookup_erase_ne hne]
  · cases h
    exact .of_lookup_eq rfl

theorem lookup_eq_none_of_makeRoom (h : makeRoom policy entries walk key = none) :
    entries.lookup key = none := by
  unfold makeRoom at h
  split_ifs at h with hfull
  exact isNone_iff_eq_none.mp hfull.1

/-- A report only drops records of other keys. -/
theorem thins_afterLoadResult (hne : other ≠ key) :
    Thins entries (afterLoadResult policy entries now walk key success) other := by
  unfold afterLoadResult
  split_ifs with hena hsuccess
  · exact (thins_prune ..).trans (.of_lookup_eq (lookup_erase_ne hne))
  · dsimp only
    split
    · exact thins_prune ..
    · rename_i roomy hroomy
      refine ((thins_prune ..).trans (thins_makeRoom hroomy other)).trans (.of_lookup_eq ?_)
      exact lookup_insert_ne hne
  · exact .of_lookup_eq rfl

theorem halfOpen_failed (policy : LoadBreakerPolicy) (now : ℕ) (entry : LoadBreaker) :
    (entry.failed policy now).halfOpen = false := by
  unfold LoadBreaker.failed
  dsimp only
  split_ifs with hopen
  · rfl
  · rfl
  · exact Bool.eq_false_iff.mpr fun hhalf ↦ hopen (isOpen_of_halfOpen hhalf)

/-- A report ends the probe of its key. -/
theorem halfOpen_afterLoadResult (hena : policy.isEnabled = true) :
    halfOpen (afterLoadResult policy entries now walk key success) key = false := by
  unfold halfOpen afterLoadResult
  rw [if_pos hena]
  dsimp only
  split_ifs with hsuccess
  · rw [lookup_erase]
    rfl
  · split
    · rename_i hfull
      rw [lookup_eq_none_of_makeRoom hfull]
      rfl
    · rw [lookup_insert, any_some]
      exact halfOpen_failed policy now _

theorem Thins.halfOpen {after : LoadBreakerEntries} (h : Thins entries after key)
    (hhalf : halfOpen after key = true) : halfOpen entries key = true := by
  obtain ⟨entry, hlook, hentry⟩ := halfOpen_eq_true_iff.mp hhalf
  exact halfOpen_eq_true_iff.mpr ⟨entry, h.lookup entry hlook, hentry⟩

theorem beforeLoad_of_isEnabled_eq_false (h : policy.isEnabled = false) :
    beforeLoad policy entries now key = (.allow, entries) := by
  rw [beforeLoad, h]
  rfl

theorem afterLoadResult_of_isEnabled_eq_false (h : policy.isEnabled = false) :
    afterLoadResult policy entries now walk key success = entries := by
  rw [afterLoadResult, h]
  rfl

end LoadBreakerEntries

end HydraCache.Local
