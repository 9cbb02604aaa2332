import HydraCache.Lib.OrderedMap
import HydraCache.Lib.Run
import HydraCache.Local.Entry
import Mathlib.Data.List.MinMax
import Mathlib.Data.String.Basic

/-!
# Hot remote entries

A near cache stores what it reads from the owners of other keys, at most so many entries under a
bounded policy. A hydration that exceeds the bound evicts the entries that were hydrated longest
ago, and it evicts each through `remove`, the removal of the public interface, which also publishes
the invalidation of the key. Every other cache on the bus applies that invalidation, the owner of
the key among them (`owner_loses_evicted_entry`).

`evictions_stay_near_iff` says for which caches and hydrations no other cache loses an entry,
however the messages are delivered: those in which no key whose eviction is published is held by a
cache that takes the messages of the near cache, that is by one with another node id.

Scope. A hydration publishes invalidations of keys only, so these are the messages here. Whether the
cluster runtime and the bus let a message out, and whether the runtime of its receiver lets it in,
is given with each step; messages may be lost, delayed and repeated. The counters for diagnostics
are left out, and so are the tag index and the removal observer, which no step here reads.
-/

set_option autoImplicit false

namespace HydraCache.Transport

open Lib Local

/-! ### The policy and what it tracks -/

structure HotRemoteCachePolicy where
  enabled : Bool := true
  ttl : Option Instant := none
  maxEntries : Option ℕ := none
deriving DecidableEq

namespace HotRemoteCachePolicy

def isEnabled (policy : HotRemoteCachePolicy) : Bool :=
  policy.enabled && decide (policy.maxEntries ≠ some 0)

def cacheOptions (policy : HotRemoteCachePolicy) (options : CacheOptions) : CacheOptions :=
  match policy.ttl with
  | some ttl => { options with ttl := some ttl }
  | none => options

end HotRemoteCachePolicy

structure HotRemoteCacheState where
  tracked : OrderedMap Key ℕ := ∅
  nextSequence : ℕ := 0

namespace HotRemoteCacheState

/-- The loop of `record_hydration`: it takes the first key with the least sequence number until the
bound is met, in at most `fuel` rounds. -/
def evictOldest (maxEntries : ℕ) : ℕ → OrderedMap Key ℕ → List Key × OrderedMap Key ℕ
  | 0, tracked => ([], tracked)
  | fuel + 1, tracked =>
    if maxEntries < tracked.rows.length then
      match tracked.rows.argmin Prod.snd with
      | none => ([], tracked)
      | some (oldestKey, _) =>
        let rest := evictOldest maxEntries fuel (tracked.remove oldestKey)
        (oldestKey :: rest.1, rest.2)
    else ([], tracked)

/-- The keys to evict, and what is tracked then. -/
def recordHydration (state : HotRemoteCacheState) (key : Key) (policy : HotRemoteCachePolicy) :
    List Key × HotRemoteCacheState :=
  let nextSequence := saturatingSucc state.nextSequence
  let tracked := state.tracked.insert key nextSequence
  match policy.maxEntries with
  | none => ([], ⟨tracked, nextSequence⟩)
  | some maxEntries =>
    let evicted := evictOldest maxEntries tracked.rows.length tracked
    (evicted.1, ⟨evicted.2, nextSequence⟩)

end HotRemoteCacheState

/-! ### Caches on a bus -/

/-- A cache, with the id under which it publishes. -/
structure BusCache where
  invalidationNodeId : String
  config : CacheConfig
  store : Key → Option CacheEntry := fun _ ↦ none
  nextEntryVersion : ℕ := 1

namespace BusCache

/-- Store a value, unless it is too large or the versions are used up. -/
def putEncoded (cache : BusCache) (now : Instant) (key : Key) (value : Local.Bytes)
    (options : CacheOptions) :
    Option BusCache :=
  if exceedsMaxEntryBytes cache.config value ∨ cache.nextEntryVersion = maxWord then none
  else
    some { cache with
      store := Function.update cache.store key (some
        { value
          tags := options.tags
          expiresAt := deadlineAfter cache.config options now
          version := cache.nextEntryVersion })
      nextEntryVersion := cache.nextEntryVersion + 1 }

def removeWithEvent (cache : BusCache) (key : Key) : BusCache :=
  { cache with store := Function.update cache.store key none }

theorem removeWithEvent_of_eq_none {cache : BusCache} {key : Key} (h : cache.store key = none) :
    cache.removeWithEvent key = cache := by
  rw [removeWithEvent, ← h, Function.update_eq_self]

theorem invalidationNodeId_putEncoded {cache next : BusCache} {now : Instant} {key : Key}
    {value : Local.Bytes} {options : CacheOptions}
    (h : cache.putEncoded now key value options = some next) :
    next.invalidationNodeId = cache.invalidationNodeId := by
  unfold putEncoded at h
  split_ifs at h
  cases h
  rfl

end BusCache

/-- The invalidation of a key, with the id of the cache that published it. -/
structure CacheInvalidationMessage where
  sourceId : String
  key : Key
deriving DecidableEq

/-- The caches on one bus, the hot-remote state of the near cache, and the messages published so
far. -/
structure BusState (ι : Type) where
  caches : ι → BusCache
  hot : HotRemoteCacheState := {}
  published : List CacheInvalidationMessage := []

/-- What a hydration is called with: the clock it reads, and the messages that get out. -/
structure Hydration where
  key : Key
  value : Local.Bytes
  options : CacheOptions := {}
  now : Instant := 0
  publishes : Key → Bool := fun _ ↦ true

inductive BusLabel (ι : Type) where
  | hydrate (hydration : Hydration)
  | receive (receiver : ι) (message : CacheInvalidationMessage) (validGeneration : Bool)

def BusLabel.hydration {ι : Type} : BusLabel ι → Option Hydration
  | hydrate hydration => some hydration
  | receive .. => none

namespace BusState

variable {ι : Type} [DecidableEq ι]

/-- `remove`, in a loop that ends with the first message that does not get out. -/
def removeAll (near : ι) (publishes : Key → Bool) : BusState ι → List Key → BusState ι
  | s, [] => s
  | s, key :: rest =>
    let removed := { s with
      caches := Function.update s.caches near ((s.caches near).removeWithEvent key) }
    if publishes key then
      removeAll near publishes
        { removed with published := ⟨(s.caches near).invalidationNodeId, key⟩ :: s.published } rest
    else removed

def hydrateRemoteEntry (near : ι) (policy : HotRemoteCachePolicy) (s : BusState ι)
    (hydration : Hydration) : BusState ι :=
  if policy.isEnabled then
    match (s.caches near).putEncoded hydration.now hydration.key hydration.value
        (policy.cacheOptions hydration.options) with
    | none => s
    | some stored =>
      let recorded := s.hot.recordHydration hydration.key policy
      removeAll near hydration.publishes
        { s with caches := Function.update s.caches near stored, hot := recorded.2 } recorded.1
  else s

/-- `apply_remote_invalidation`; the listener skips what its own cache published. -/
def applyRemoteInvalidation (s : BusState ι) (receiver : ι) (message : CacheInvalidationMessage)
    (validGeneration : Bool) : BusState ι :=
  if message.sourceId = (s.caches receiver).invalidationNodeId then s
  else if validGeneration then
    { s with
      caches :=
        Function.update s.caches receiver ((s.caches receiver).removeWithEvent message.key) }
  else s

def step (near : ι) (policy : HotRemoteCachePolicy) (s : BusState ι) : BusLabel ι →
    Option (BusState ι)
  | .hydrate hydration => some (s.hydrateRemoteEntry near policy hydration)
  | .receive receiver message validGeneration =>
    if message ∈ s.published then
      some (s.applyRemoteInvalidation receiver message validGeneration)
    else none

/-- The hydrations alone, with no message received. -/
def hydrateAll (near : ι) (policy : HotRemoteCachePolicy) (s : BusState ι)
    (hydrations : List Hydration) : BusState ι :=
  hydrations.foldl (hydrateRemoteEntry near policy) s

/-! ### What a hydration leaves alone -/

variable {near receiver : ι} {policy : HotRemoteCachePolicy} {s s' : BusState ι}

/-- The near cache alone changes and keeps its id, and messages only come to be under that id. -/
structure Confined (near : ι) (s s' : BusState ι) : Prop where
  caches : ∀ i ≠ near, s'.caches i = s.caches i
  nodeId : (s'.caches near).invalidationNodeId = (s.caches near).invalidationNodeId
  published : s.published ⊆ s'.published
  sources : ∀ message ∈ s'.published,
    message ∈ s.published ∨ message.sourceId = (s.caches near).invalidationNodeId

omit [DecidableEq ι] in
theorem Confined.refl (near : ι) (s : BusState ι) : Confined near s s :=
  ⟨fun _ _ ↦ rfl, rfl, List.Subset.refl _, fun _ ↦ Or.inl⟩

omit [DecidableEq ι] in
theorem Confined.trans {s'' : BusState ι} (h : Confined near s s') (h' : Confined near s' s'') :
    Confined near s s'' where
  caches i hi := (h'.caches i hi).trans (h.caches i hi)
  nodeId := h'.nodeId.trans h.nodeId
  published := List.Subset.trans h.published h'.published
  sources message hmsg := by
    rcases h'.sources message hmsg with hold | hsrc
    · exact h.sources message hold
    · exact .inr (hsrc.trans h.nodeId)

/-- Assumes: a cache with the id of the near one. It may take its place. -/
theorem confined_update {cache : BusCache} (hot : HotRemoteCacheState)
    (h : cache.invalidationNodeId = (s.caches near).invalidationNodeId) :
    Confined near s { s with caches := Function.update s.caches near cache, hot } where
  caches _ hi := Function.update_of_ne hi _ _
  nodeId := (congrArg _ (Function.update_self _ _ _)).trans h
  published := List.Subset.refl _
  sources _ := Or.inl

theorem confined_removeAll (publishes : Key → Bool) (keys : List Key) (s : BusState ι) :
    Confined near s (removeAll near publishes s keys) := by
  induction keys generalizing s with
  | nil => exact .refl near s
  | cons key _ ih =>
    have hrem : Confined near s { s with
        caches := Function.update s.caches near ((s.caches near).removeWithEvent key) } :=
      confined_update s.hot rfl
    unfold removeAll
    split_ifs
    · refine Confined.trans ?_ (ih _)
      refine ⟨hrem.caches, hrem.nodeId, List.subset_cons_self _ _, fun message hmsg ↦ ?_⟩
      rcases List.mem_cons.mp hmsg with rfl | hold
      · exact .inr rfl
      · exact .inl hold
    · exact hrem

theorem confined_hydrateRemoteEntry (near : ι) (policy : HotRemoteCachePolicy)
    (hydration : Hydration) (s : BusState ι) :
    Confined near s (s.hydrateRemoteEntry near policy hydration) := by
  unfold hydrateRemoteEntry
  split_ifs
  · split
    · exact .refl near s
    · rename_i stored hsto
      exact (confined_update _ (BusCache.invalidationNodeId_putEncoded hsto)).trans
        (confined_removeAll _ _ _)
  · exact .refl near s

theorem confined_hydrateAll (near : ι) (policy : HotRemoteCachePolicy) (hydrations : List Hydration)
    (s : BusState ι) : Confined near s (s.hydrateAll near policy hydrations) := by
  induction hydrations generalizing s with
  | nil => exact .refl near s
  | cons hydration _ ih => exact (confined_hydrateRemoteEntry near policy hydration s).trans (ih _)

/-! ### Who loses an entry -/

/-- The receiver does not hold the key, or skips the message. -/
def Spared (caches : ι → BusCache) (message : CacheInvalidationMessage) : Prop :=
  ∀ i, message.sourceId ≠ (caches i).invalidationNodeId → (caches i).store message.key = none

theorem applyRemoteInvalidation_of_spared {message : CacheInvalidationMessage}
    (h : Spared s.caches message) (valid : Bool) :
    s.applyRemoteInvalidation receiver message valid = s := by
  unfold applyRemoteInvalidation
  split_ifs with hsrc
  · rfl
  · rw [BusCache.removeWithEvent_of_eq_none (h receiver hsrc), Function.update_eq_self]
  · rfl

/-- Assumes: every message the hydrations lead to spares the caches, as they stand. Receiving them
does nothing: the run leaves the state the hydrations alone leave. -/
theorem run_eq_hydrateAll {labels : List (BusLabel ι)}
    (hspared :
      ∀ message ∈ (s.hydrateAll near policy (labels.filterMap BusLabel.hydration)).published,
      ∀ i ≠ near, message.sourceId ≠ (s.caches i).invalidationNodeId →
      (s.caches i).store message.key = none)
    (hsources : ∀ message ∈ s.published, message.sourceId = (s.caches near).invalidationNodeId)
    (hrun : run (step near policy) s labels = some s') :
    s' = s.hydrateAll near policy (labels.filterMap BusLabel.hydration) := by
  induction labels generalizing s with
  | nil => exact (Option.some.inj hrun).symm
  | cons label _ ih =>
    obtain ⟨middle, hstep, hrest⟩ := run_cons_eq_some.mp hrun
    cases label with
    | hydrate hydration =>
      cases hstep
      have hconf := confined_hydrateRemoteEntry near policy hydration s
      refine ih (fun message hmsg i hi ↦ ?_) (fun message hmsg ↦ ?_) hrest
      · rw [hconf.caches i hi]
        exact hspared message hmsg i hi
      · rw [hconf.nodeId]
        rcases hconf.sources message hmsg with hold | hsrc
        · exact hsources message hold
        · exact hsrc
    | receive _ message =>
      simp only [step] at hstep
      split_ifs at hstep with hpub
      cases hstep
      have hspares : Spared s.caches message := by
        intro i hsrc
        refine hspared message ((confined_hydrateAll near policy _ s).published hpub) i ?_ hsrc
        rintro rfl
        exact hsrc (hsources message hpub)
      rw [applyRemoteInvalidation_of_spared hspares] at hrest
      exact ih hspared hsources hrest

/-- The caches and the hot-remote state before the hydrations, with nothing on the bus. -/
def initial (caches : ι → BusCache) (hot : HotRemoteCacheState) : BusState ι := { caches, hot }

theorem run_hydrations (hydrations : List Hydration) (s : BusState ι) :
    run (step near policy) s (hydrations.map .hydrate) =
      some (s.hydrateAll near policy hydrations) := by
  induction hydrations generalizing s with
  | nil => rfl
  | cons _ _ ih => exact ih _

/-- No other cache loses an entry in any run with these hydrations, whatever is received when,
exactly when no key whose eviction they publish is held under another node id. -/
theorem evictions_stay_near_iff (near : ι) (policy : HotRemoteCachePolicy) (caches : ι → BusCache)
    (hot : HotRemoteCacheState) (hydrations : List Hydration) :
    (∀ labels s, labels.filterMap BusLabel.hydration = hydrations →
      run (step near policy) (initial caches hot) labels = some s →
        ∀ i ≠ near, ∀ key entry, (caches i).store key = some entry →
          (s.caches i).store key = some entry) ↔
      ∀ message ∈ ((initial caches hot).hydrateAll near policy hydrations).published,
        ∀ i, (caches i).invalidationNodeId ≠ (caches near).invalidationNodeId →
          (caches i).store message.key = none := by
  have hconf := confined_hydrateAll near policy hydrations (initial caches hot)
  have hsrc : ∀ message ∈ ((initial caches hot).hydrateAll near policy hydrations).published,
      message.sourceId = (caches near).invalidationNodeId := by
    intro message hmsg
    rcases hconf.sources message hmsg with hold | hsrc
    · cases hold
    · exact hsrc
  constructor
  · intro hkept message hmsg i hid
    have hi : i ≠ near := fun heq ↦ hid (by rw [heq])
    cases hheld : (caches i).store message.key with
    | none => rfl
    | some entry =>
      -- received once all hydrations are over, the message removes the entry
      have hrun : run (step near policy) (initial caches hot)
          (hydrations.map .hydrate ++ [.receive i message true]) =
            some (((initial caches hot).hydrateAll near policy hydrations).applyRemoteInvalidation i
              message true) := by
        refine run_append_eq_some.mpr ⟨_, run_hydrations hydrations _, ?_⟩
        rw [run_cons_eq_some]
        exact ⟨_, if_pos hmsg, rfl⟩
      have hlabels :
        (hydrations.map BusLabel.hydrate ++ [BusLabel.receive i message true]).filterMap
          BusLabel.hydration = hydrations := by
        rw [List.filterMap_append, List.filterMap_map]
        exact (List.append_nil _).trans List.filterMap_some
      have hentry := hkept _ _ hlabels hrun i hi message.key entry hheld
      have hother : message.sourceId ≠
          (((initial caches hot).hydrateAll near policy hydrations).caches
            i).invalidationNodeId := by
        rw [hsrc message hmsg, hconf.caches i hi]
        exact hid.symm
      rw [applyRemoteInvalidation, if_neg hother, if_pos rfl] at hentry
      simp [BusCache.removeWithEvent] at hentry
  · intro hspared labels s hlabels hrun i hi key entry hentry
    subst hlabels
    have hstate := run_eq_hydrateAll (s := initial caches hot) (fun message hmsg i _ hother ↦ ?_)
      (fun message hmsg ↦ by cases hmsg) hrun
    · rwa [hstate, hconf.caches i hi]
    · refine hspared message hmsg i ?_
      rw [← hsrc message hmsg]
      exact hother.symm

end BusState

/-! ### The owner of an evicted key -/

/-- The near cache and the owner of two keys, with one of them stored there. -/
def nearAndOwner : Bool → BusCache
  | false => { invalidationNodeId := "near", config := ⟨10, 1024, 1000000⟩ }
  | true =>
    { invalidationNodeId := "owner"
      config := ⟨10, 1024, 1000000⟩
      store := fun key ↦ if key = "user:1" then some ⟨[1], [], none, 1⟩ else none }

/-- Two hydrations with room for one entry, and the owner receives what the second one publishes. -/
def evictingLabels : List (BusLabel Bool) :=
  [.hydrate { key := "user:1", value := [1] }, .hydrate { key := "user:2", value := [2] },
    .receive true ⟨"near", "user:1"⟩ true]

/-- The owner no longer holds the entry that the near cache evicted. -/
theorem owner_loses_evicted_entry :
    ((run (BusState.step false { maxEntries := some 1 }) (.initial nearAndOwner {})
      evictingLabels).map fun s ↦ (s.caches true).store "user:1") = some none ∧
      ((nearAndOwner true).store "user:1").isSome := by
  decide +kernel

end HydraCache.Transport
