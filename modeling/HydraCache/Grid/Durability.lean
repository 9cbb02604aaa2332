import HydraCache.Grid.ActiveActive
import HydraCache.Grid.DurableStore
import Mathlib.Data.Finset.Sort

/-!
# The durability write path

A write of a persistent namespace is either flushed before it is acknowledged or queued and
acknowledged at once, up to the lag the policy admits. Queued writes reach the store when the queue
is drained: they are popped and upserted one after another, and the store is flushed once at the
end.

The store is a parameter (`DurableBackend`) that may fail at any call. It is observed through a
journal of the calls that succeeded (`journaled`), and the writes acknowledged as queued are kept
beside the path (`DurabilityRun`). `Accounted` is what a reader of the acknowledgements relies on:
the acknowledged writes are some that were upserted and then covered by a flush, followed by those
still pending, and their number is the number counted as drained plus the number pending. A drain
that fails after its first upsert has dropped writes from the queue without a flush and without
counting them. `accounted_iff` says that the path accounts for its writes after every request of a
run exactly along the requests that do not drain so (`DrainsWhole`).

Scope. Eviction, backup count, in-memory format and maintenance of the settings are not read by the
write path and left out. A tombstone is a write of a tombstone record.
-/

set_option autoImplicit false

namespace HydraCache.Grid

open Lib List

variable {σ : Type}

/-! ### Persistence policy -/

inductive PersistenceDurability where
  | sync
  | asyncBounded (maxLag : ℕ)
deriving DecidableEq

inductive RegionSelector where
  | all
  | only (regions : Finset RegionId)
  | homeRegionOnly
deriving DecidableEq

/-- The regions of a namespace, its home among them. -/
structure PersistenceRegionPlacement where
  home : RegionId
  replicatedRegions : Finset RegionId
  home_mem : home ∈ replicatedRegions

def PersistenceRegionPlacement.new (home : RegionId) (replicatedRegions : Finset RegionId) :
    PersistenceRegionPlacement where
  home
  replicatedRegions := insert home replicatedRegions
  home_mem := Finset.mem_insert_self home replicatedRegions

def RegionSelector.selects (selector : RegionSelector) (localRegion : RegionId)
    (placement : PersistenceRegionPlacement) : Bool :=
  match selector with
  | .all => localRegion ∈ placement.replicatedRegions
  | .only regions => localRegion ∈ regions
  | .homeRegionOnly => placement.home = localRegion

/-- An exact namespace, the namespaces with a given beginning, or every namespace. -/
inductive PersistenceMatcher where
  | exactly (text : String)
  | beginning (text : String)
  | default
deriving DecidableEq

namespace PersistenceMatcher

def display : PersistenceMatcher → String
  | exactly text => text
  | beginning text => text ++ "*"
  | default => "default"

def «matches» (matcher : PersistenceMatcher) (ns : String) : Bool :=
  match matcher with
  | exactly text => text = ns
  | beginning text => text.toList.isPrefixOf ns.toList
  | default => true

def precedenceKey : PersistenceMatcher → ℕ ×ₗ ℕ
  | exactly text => toLex (3, text.utf8ByteSize)
  | beginning text => toLex (2, text.utf8ByteSize)
  | default => toLex (1, 0)

end PersistenceMatcher

structure PersistencePolicyError where
  message : String
deriving DecidableEq

/-- The selected regions that the namespace is not placed in. -/
def RegionSelector.missing (selector : RegionSelector) (placement : PersistenceRegionPlacement) :
    Finset RegionId :=
  match selector with
  | .only regions => regions \ placement.replicatedRegions
  | _ => ∅

def RegionSelector.validatePlacement (selector : RegionSelector) (pattern : PersistenceMatcher)
    (placement : PersistenceRegionPlacement) : Except PersistencePolicyError Unit :=
  if selector.missing placement = ∅ then .ok ()
  else .error
    ⟨"persistence rule '" ++ pattern.display ++ "' selects region(s) outside placement: " ++
    ", ".intercalate ((selector.missing placement).sort (· ≤ ·))⟩

structure NamespacePersistenceSettings where
  persist : Bool
  durability : PersistenceDurability := .asyncBounded 1024
  /-- A duration in nanoseconds. -/
  snapshotInterval : Option ℕ := none
  persistInRegions : RegionSelector := .all

def NamespacePersistenceSettings.ramOnly : NamespacePersistenceSettings where
  persist := false

structure NamespacePersistenceRule where
  matcher : PersistenceMatcher
  settings : NamespacePersistenceSettings

structure PersistencePolicy where
  rules : List NamespacePersistenceRule

namespace PersistencePolicy

section

variable (policy : PersistencePolicy)

/-- The rule of the highest precedence among those that match, the first of several. -/
def bestRule (ns : String) : Option NamespacePersistenceRule :=
  policy.rules.foldl
    (fun best rule ↦
      if rule.matcher.matches ns = false then best
      else
        match best with
        | some current =>
          if current.matcher.precedenceKey < rule.matcher.precedenceKey then some rule
            else some current
        | none => some rule)
    none

def resolve (ns : String) : NamespacePersistenceSettings :=
  ((policy.bestRule ns).map (·.settings)).getD .ramOnly

def validateNamespacePlacement (ns : String)
    (placement : PersistenceRegionPlacement) : Except PersistencePolicyError Unit :=
  (policy.rules.filter fun rule ↦ rule.settings.persist && rule.matcher.matches ns).forM fun rule ↦
    rule.settings.persistInRegions.validatePlacement rule.matcher placement

def resolveForRegion (ns : String) (localRegion : RegionId)
    (placement : PersistenceRegionPlacement) :
    Except PersistencePolicyError NamespacePersistenceSettings := do
  policy.validateNamespacePlacement ns placement
  let resolved := policy.resolve ns
  if (resolved.persist && resolved.persistInRegions.selects localRegion placement) = false then
    .ok { resolved with persist := false }
  else .ok resolved

end

end PersistencePolicy

/-! ### The path -/

/-- The store behind the path: it may fail at any call, and what it did by then stays done. -/
structure DurableBackend (σ : Type) where
  upsert : σ → Key → ReplicatedValueRecord → Except ValueStoreError Unit × σ
  flushDurable : σ → Except ValueStoreError Unit × σ

def watermarkFor (record : ReplicatedValueRecord) : WriteWatermark where
  partition := record.partition
  version := record.version
  epoch := record.epoch

inductive DurableWriteOutcome where
  | skippedRamOnly
  | syncAcked (watermark : WriteWatermark) (fsyncBeforeAck : Bool)
  | queued (watermark : WriteWatermark) (lag : ℕ)
deriving DecidableEq

inductive DurabilityErrorKind where
  | policy
  | store
  | backpressure
  | snapshot
deriving DecidableEq

structure DurabilityError where
  kind : DurabilityErrorKind
  message : String
deriving DecidableEq

structure DurabilityMetricsSnapshot where
  syncWriteTotal : ℕ := 0
  asyncQueuedTotal : ℕ := 0
  asyncDrainedTotal : ℕ := 0
  ramOnlySkippedTotal : ℕ := 0
  backpressureTotal : ℕ := 0
  snapshotTotal : ℕ := 0
  asyncLag : ℕ := 0
deriving DecidableEq

def durabilitySnapshotFormatVersion : ℕ := 1

/-- The milliseconds of a duration in nanoseconds. -/
def durationMillis (duration : ℕ) : ℕ := min (duration / 1000000) maxWord

def snapshotChecksum (ns : String) (watermark : WriteWatermark) (createdAfterMs intervalMs : ℕ) :
    UInt64 :=
  fnv1a
    (littleEndian 4 durabilitySnapshotFormatVersion ++ utf8 ns ++
    littleEndian 4 watermark.partition ++
    littleEndian 8 watermark.version ++ littleEndian 8 watermark.epoch ++
      littleEndian 8 createdAfterMs ++
    littleEndian 8 intervalMs)

structure DurabilitySnapshotManifest where
  formatVersion : ℕ
  ns : String
  watermark : WriteWatermark
  createdAfterMs : ℕ
  intervalMs : ℕ
  checksum : UInt64
deriving DecidableEq

namespace DurabilitySnapshotManifest

def new (ns : String) (watermark : WriteWatermark) (createdAfter interval : ℕ) :
    DurabilitySnapshotManifest where
  formatVersion := durabilitySnapshotFormatVersion
  ns
  watermark
  createdAfterMs := durationMillis createdAfter
  intervalMs := durationMillis interval
  checksum := snapshotChecksum ns watermark (durationMillis createdAfter) (durationMillis interval)

def verify (manifest : DurabilitySnapshotManifest) : Except DurabilityError Unit :=
  if manifest.formatVersion ≠ durabilitySnapshotFormatVersion then
    .error
      ⟨.snapshot, "unsupported durability snapshot format " ++ decimal manifest.formatVersion ++
      "; expected " ++ decimal durabilitySnapshotFormatVersion⟩
  else if snapshotChecksum manifest.ns manifest.watermark manifest.createdAfterMs
    manifest.intervalMs ≠ manifest.checksum then
    .error
      ⟨.snapshot, "durability snapshot checksum mismatch for namespace '" ++ manifest.ns ++ "'"⟩
  else .ok ()

end DurabilitySnapshotManifest

structure PendingDurableWrite where
  ns : String
  key : Key
  record : ReplicatedValueRecord
deriving DecidableEq

structure DurabilityWritePath (σ : Type) where
  store : σ
  policy : PersistencePolicy
  localRegion : RegionId
  placement : PersistenceRegionPlacement
  pending : List PendingDurableWrite := []
  lastSnapshotAt : KeyMap String ℕ := ∅
  snapshots : List DurabilitySnapshotManifest := []
  metrics : DurabilityMetricsSnapshot := {}

namespace DurabilityWritePath

variable (backend : DurableBackend σ)

def storeError (error : ValueStoreError) : DurabilityError := ⟨.store, error.message⟩

section

variable (path : DurabilityWritePath σ)

/-- A write that is flushed before it is acknowledged. -/
def writeSync (key : Key) (record : ReplicatedValueRecord) :
    Except DurabilityError DurableWriteOutcome × DurabilityWritePath σ :=
  match backend.upsert path.store key record with
  | (.error error, store) => (.error (storeError error), { path with store })
  | (.ok (), store) =>
    match backend.flushDurable store with
    | (.error error, store) => (.error (storeError error), { path with store })
    | (.ok (), store) =>
      (.ok (.syncAcked (watermarkFor record) true),
        { path with
          store
          metrics :=
            { path.metrics with syncWriteTotal := saturatingSucc path.metrics.syncWriteTotal } })

/-- A write that is queued when the lag admits it. -/
def writeAsync (maxLag : ℕ) (write : PendingDurableWrite) :
    Except DurabilityError DurableWriteOutcome × DurabilityWritePath σ :=
  if maxLag ≤ path.pending.length then
    (.error ⟨.backpressure, "durability async lag bound exceeded for namespace '" ++ write.ns ++
        "': pending=" ++ decimal path.pending.length ++ ", max_lag=" ++ decimal maxLag⟩,
      { path with
        metrics := { path.metrics with
          backpressureTotal := saturatingSucc path.metrics.backpressureTotal } })
  else
    (.ok (.queued (watermarkFor write.record) (path.pending.length + 1)),
      { path with
        pending := path.pending ++ [write]
        metrics := { path.metrics with
          asyncQueuedTotal := saturatingSucc path.metrics.asyncQueuedTotal
          asyncLag := path.pending.length + 1 } })

def write (ns : String) (key : Key) (record : ReplicatedValueRecord) :
    Except DurabilityError DurableWriteOutcome × DurabilityWritePath σ :=
  match path.policy.resolveForRegion ns path.localRegion path.placement with
  | .error error => (.error ⟨.policy, error.message⟩, path)
  | .ok resolved =>
    if resolved.persist = false then
      (.ok .skippedRamOnly,
        { path with
          metrics := { path.metrics with
            ramOnlySkippedTotal := saturatingSucc path.metrics.ramOnlySkippedTotal } })
    else
      match resolved.durability with
      | .sync => path.writeSync backend key record
      | .asyncBounded maxLag => path.writeAsync maxLag ⟨ns, key, record⟩

end

/-- The loop of a drain over the writes that are still queued, with the number drained so far. -/
def drainLoop (path : DurabilityWritePath σ) (drained : ℕ) :
    List PendingDurableWrite → Except DurabilityError ℕ × DurabilityWritePath σ
  | [] => (.ok drained, { path with pending := [] })
  | write :: rest =>
    match backend.upsert path.store write.key write.record with
    | (.error error, store) =>
      (.error (storeError error),
        { path with
          store
          pending := write :: rest
          metrics := { path.metrics with asyncLag := (write :: rest).length } })
    | (.ok (), store) => drainLoop { path with store } (saturatingSucc drained) rest

section

variable (path : DurabilityWritePath σ)

/-- What follows the loop: one flush for all that was drained. -/
def drainFlush (drained : ℕ) : Except DurabilityError ℕ × DurabilityWritePath σ :=
  if drained = 0 then
    (.ok drained, { path with metrics := { path.metrics with asyncLag := path.pending.length } })
  else
    match backend.flushDurable path.store with
    | (.error error, store) => (.error (storeError error), { path with store })
    | (.ok (), store) =>
      (.ok drained,
        { path with
          store
          metrics := { path.metrics with
            asyncDrainedTotal := saturatingAdd path.metrics.asyncDrainedTotal drained
            asyncLag := path.pending.length } })

def drainAsync : Except DurabilityError ℕ × DurabilityWritePath σ :=
  match path.drainLoop backend 0 path.pending with
  | (.error error, path) => (.error error, path)
  | (.ok drained, path) => path.drainFlush backend drained

/-- The interval of the snapshots of a namespace when one is due, and none when there is nothing to
do. -/
def snapshotDue (ns : String) (now : ℕ) : Except DurabilityError (Option ℕ) :=
  match path.policy.resolveForRegion ns path.localRegion path.placement with
  | .error error => .error ⟨.policy, error.message⟩
  | .ok resolved =>
    if resolved.persist = false then .ok none
    else
      match resolved.snapshotInterval with
      | none => .ok none
      | some interval =>
        match path.lastSnapshotAt.lookup ns with
        | some last => if interval ≤ now - last then .ok (some interval) else .ok none
        | none => .ok (some interval)

/-- The flush and the manifest of a snapshot, once the queue is drained. -/
def takeSnapshot (ns : String) (now : ℕ) (watermark : WriteWatermark) (interval : ℕ) :
    Except DurabilityError (Option DurabilitySnapshotManifest) × DurabilityWritePath σ :=
  match backend.flushDurable path.store with
  | (.error error, store) => (.error (storeError error), { path with store })
  | (.ok (), store) =>
    let manifest := DurabilitySnapshotManifest.new ns watermark now interval
    match manifest.verify with
    | .error error => (.error error, { path with store })
    | .ok () =>
      (.ok (some manifest),
        { path with
          store
          lastSnapshotAt := path.lastSnapshotAt.insert ns now
          snapshots := path.snapshots ++ [manifest]
          metrics :=
            { path.metrics with snapshotTotal := saturatingSucc path.metrics.snapshotTotal } })

def maybeSnapshot (ns : String) (now : ℕ) (watermark : WriteWatermark) :
    Except DurabilityError (Option DurabilitySnapshotManifest) × DurabilityWritePath σ :=
  match path.snapshotDue ns now with
  | .error error => (.error error, path)
  | .ok none => (.ok none, path)
  | .ok (some interval) =>
    match path.drainAsync backend with
    | (.error error, path) => (.error error, path)
    | (.ok _, path) => path.takeSnapshot backend ns now watermark interval

end

end DurabilityWritePath

open DurabilityWritePath

/-! ### The store observed -/

/-- A call of the store that succeeded. -/
inductive StoreEvent where
  | upsert (key : Key) (record : ReplicatedValueRecord)
  | flush
deriving DecidableEq

/-- The store with a journal of the calls that succeeded. -/
def journaled (backend : DurableBackend σ) : DurableBackend (σ × List StoreEvent) where
  upsert store key record :=
    match backend.upsert store.1 key record with
    | (.error error, next) => (.error error, next, store.2)
    | (.ok (), next) => (.ok (), next, store.2 ++ [.upsert key record])
  flushDurable store :=
    match backend.flushDurable store.1 with
    | (.error error, next) => (.error error, next, store.2)
    | (.ok (), next) => (.ok (), next, store.2 ++ [.flush])

/-- A path together with the writes it has acknowledged as queued. -/
structure DurabilityRun (σ : Type) where
  path : DurabilityWritePath (σ × List StoreEvent)
  queued : List PendingDurableWrite := []

inductive DurabilityRequest where
  | write (ns : String) (key : Key) (record : ReplicatedValueRecord)
  | drainAsync
  | maybeSnapshot (ns : String) (now : ℕ) (watermark : WriteWatermark)

namespace DurabilityRun

def apply (backend : DurableBackend σ) (s : DurabilityRun σ) : DurabilityRequest → DurabilityRun σ
  | .write ns key record =>
    match s.path.write (journaled backend) ns key record with
    | (.ok (.queued _ _), path) => { path, queued := s.queued ++ [⟨ns, key, record⟩] }
    | (_, path) => { s with path }
  | .drainAsync => { s with path := (s.path.drainAsync (journaled backend)).2 }
  | .maybeSnapshot ns now watermark =>
    { s with path := (s.path.maybeSnapshot (journaled backend) ns now watermark).2 }

/-- Every call is accepted. -/
def step (backend : DurableBackend σ) (s : DurabilityRun σ) (request : DurabilityRequest) :
    Option (DurabilityRun σ) :=
  some (s.apply backend request)

end DurabilityRun

/-- The journal has the upserts of these writes, in their order, and a flush behind them. -/
def Covered (journal : List StoreEvent) (writes : List PendingDurableWrite) : Prop :=
  writes = [] ∨ ∃ before after, journal = before ++ .flush :: after ∧
    (writes.map fun write ↦ StoreEvent.upsert write.key write.record).Sublist before

/-- The acknowledged writes are some that were upserted and then covered by a flush, followed by
those that are pending, and their number is the number counted as drained plus the number
pending. -/
structure Accounted (s : DurabilityRun σ) : Prop where
  settled : ∃ settled, s.queued = settled ++ s.path.pending ∧ Covered s.path.store.2 settled
  number : s.queued.length = s.path.metrics.asyncDrainedTotal + s.path.pending.length

/-! ### Drains -/

/-- The store is given the writes one after another, up to the first it refuses. -/
def upsertAll (backend : DurableBackend σ) : σ → List PendingDurableWrite →
    Except ValueStoreError Unit × σ
  | store, [] => (.ok (), store)
  | store, write :: rest =>
    match backend.upsert store write.key write.record with
    | (.error error, store) => (.error error, store)
    | (.ok (), store) => upsertAll backend store rest

/-- A drain has nothing to do, or the store refuses the first write, or it takes all writes and is
flushed, and the count of the drained writes stays within its word. -/
def DrainsWhole (backend : DurableBackend σ) (path : DurabilityWritePath σ) : Prop :=
  match path.pending with
  | [] => True
  | write :: rest =>
    (∃ error store, backend.upsert path.store write.key write.record = (.error error, store)) ∨
      (∃ store store', upsertAll backend path.store (write :: rest) = (.ok (), store) ∧
        backend.flushDurable store = (.ok (), store')) ∧
        path.metrics.asyncDrainedTotal + (write :: rest).length ≤ maxWord

/-- What the condition asks of a request: the drain it makes, if it makes one, is whole. -/
def DurabilityRun.Whole (backend : DurableBackend σ) (s : DurabilityRun σ) : DurabilityRequest →
    Prop
  | .write .. => True
  | .drainAsync => DrainsWhole (journaled backend) s.path
  | .maybeSnapshot ns now _ =>
    ∀ interval, s.path.snapshotDue ns now = .ok (some interval) →
      DrainsWhole (journaled backend) s.path

section

variable {backend : DurableBackend σ} {writes : List PendingDurableWrite}
  {path : DurabilityWritePath σ} {drained : ℕ}

theorem drainLoop_of_ok {store : σ} (h : upsertAll backend path.store writes = (.ok (), store)) :
    path.drainLoop backend drained writes =
      (.ok (if writes = [] then drained else saturatingAdd drained writes.length),
        { path with store, pending := [] }) := by
  induction writes generalizing path drained with
  | nil =>
    cases h
    rfl
  | cons write rest ih =>
    rw [upsertAll] at h
    rw [drainLoop]
    rcases hups : backend.upsert path.store write.key write.record with ⟨error | ⟨⟩, next⟩
    · simp [hups] at h
    · rw [hups] at h
      dsimp only at h ⊢
      rw [ih h]
      have hcount : (if rest = [] then saturatingSucc drained
          else saturatingAdd (saturatingSucc drained) rest.length) =
            saturatingAdd drained (write :: rest).length := by
        unfold saturatingSucc saturatingAdd
        rw [length_cons]
        split_ifs with hrest
        · rw [hrest]
          rfl
        · omega
      rw [hcount, if_neg (cons_ne_nil _ _)]

/-- A drain that the store interrupts leaves the write it refused and those behind it. -/
theorem drainLoop_of_error {error : ValueStoreError} {store : σ}
    (h : upsertAll backend path.store writes = (.error error, store)) :
    ∃ first left, writes = first ++ left ∧
      path.drainLoop backend drained writes =
        (.error (storeError error),
          { path with
            store, pending := left, metrics :=
            { path.metrics with asyncLag := left.length } }) := by
  induction writes generalizing path drained with
  | nil => cases h
  | cons write rest ih =>
    rw [upsertAll] at h
    rw [drainLoop]
    rcases hups : backend.upsert path.store write.key write.record with ⟨refused | ⟨⟩, next⟩
    · rw [hups] at h
      cases h
      exact ⟨[], write :: rest, rfl, rfl⟩
    · rw [hups] at h
      obtain ⟨first, left, rfl, hloop⟩ := @ih { path with store := next } (saturatingSucc drained) h
      exact ⟨write :: first, left, rfl, hloop⟩

theorem journal_upsertAll {store store' : σ × List StoreEvent}
    (h : upsertAll (journaled backend) store writes = (.ok (), store')) :
    store'.2 = store.2 ++ writes.map fun write ↦ StoreEvent.upsert write.key write.record := by
  induction writes generalizing store with
  | nil =>
    cases h
    exact (append_nil _).symm
  | cons write _ ih =>
    rw [upsertAll, journaled] at h
    dsimp only at h
    rcases hups : backend.upsert store.1 write.key write.record with ⟨error | ⟨⟩, next⟩
    · simp [hups] at h
    · rw [hups] at h
      rw [ih h, map_cons, append_assoc]
      rfl

end

theorem journal_flushDurable (backend : DurableBackend σ) (store : σ × List StoreEvent) :
    ∃ more, ((journaled backend).flushDurable store).2.2 = store.2 ++ more ∧
      (((journaled backend).flushDurable store).1 = .ok () → more = [.flush]) := by
  unfold journaled
  dsimp only
  rcases backend.flushDurable store.1 with ⟨error | ⟨⟩, next⟩
  · exact ⟨[], (append_nil _).symm, nofun⟩
  · exact ⟨[.flush], rfl, fun _ ↦ rfl⟩

/-- What a drain can do. -/
inductive Drained (backend : DurableBackend σ)
    (path path' : DurabilityWritePath (σ × List StoreEvent)) : Prop
  /-- The queue is empty, or its first write is refused. -/
  | idle (hwhole : DrainsWhole (journaled backend) path) (hpending : path'.pending = path.pending)
      (htotal : path'.metrics.asyncDrainedTotal = path.metrics.asyncDrainedTotal)
      (hjournal : path'.store.2 = path.store.2)
  | whole (hwhole : DrainsWhole (journaled backend) path ↔
        path.metrics.asyncDrainedTotal + path.pending.length ≤ maxWord)
      (hpending : path'.pending = [])
      (htotal : path'.metrics.asyncDrainedTotal =
        saturatingAdd path.metrics.asyncDrainedTotal path.pending.length)
      (hjournal : path'.store.2 = path.store.2 ++
        (path.pending.map fun write ↦ StoreEvent.upsert write.key write.record) ++ [.flush])
  /-- Some writes left the queue, and the store failed behind them. -/
  | broken (hwhole : ¬ DrainsWhole (journaled backend) path) (first : List PendingDurableWrite)
      (hfirst : first ≠ []) (hpending : path.pending = first ++ path'.pending)
      (htotal : path'.metrics.asyncDrainedTotal = path.metrics.asyncDrainedTotal)

theorem drained_drainAsync (backend : DurableBackend σ)
    (path : DurabilityWritePath (σ × List StoreEvent)) :
    Drained backend path (path.drainAsync (journaled backend)).2 := by
  rcases hpend : path.pending with _ | ⟨write, rest⟩
  · rw [drainAsync, hpend]
    refine .idle ?_ hpend.symm rfl rfl
    rw [DrainsWhole, hpend]
    trivial
  rcases hups : (journaled backend).upsert path.store write.key write.record with ⟨error | ⟨⟩, next⟩
  · -- the first write is refused and stays in front
    rw [drainAsync, hpend, drainLoop, hups]
    refine .idle ?_ hpend.symm rfl ?_
    · rw [DrainsWhole, hpend]
      exact .inl ⟨error, next, hups⟩
    · unfold journaled at hups
      dsimp only at hups
      rcases hinner : backend.upsert path.store.1 write.key write.record with ⟨refused | ⟨⟩, inner⟩
      · rw [hinner] at hups
        cases hups
        rfl
      · simp [hinner] at hups
  rcases hall : upsertAll (journaled backend) path.store (write :: rest) with ⟨error | ⟨⟩, store⟩
  · -- a later write is refused: those before it are gone
    have hrest : upsertAll (journaled backend) next rest = (.error error, store) := by
      rwa [upsertAll, hups] at hall
    obtain ⟨first, left, hsplit, hloop⟩ := @drainLoop_of_error _ _ rest { path with store := next }
      (saturatingSucc 0) error store hrest
    rw [drainAsync, hpend, drainLoop, hups]
    dsimp only
    rw [hloop]
    refine .broken ?_ (write :: first) (cons_ne_nil _ _) ?_ rfl
    · rw [DrainsWhole, hpend]
      rintro (⟨refused, store', href⟩ | ⟨⟨store', _, hok, -⟩, -⟩)
      · cases hups.symm.trans href
      · cases hall.symm.trans hok
    · rw [hpend, hsplit]
      rfl
  have hloop := @drainLoop_of_ok _ _ (write :: rest) path 0 store hall
  rw [if_neg (cons_ne_nil _ _)] at hloop
  have hsome : saturatingAdd 0 (write :: rest).length ≠ 0 :=
    (Nat.lt_min.mpr ⟨by simp, by decide⟩).ne'
  obtain ⟨more, hmore, hflushed⟩ := journal_flushDurable backend store
  rcases hflush : (journaled backend).flushDurable store with ⟨error | ⟨⟩, store'⟩
  · rw [drainAsync, hpend, hloop]
    dsimp only
    rw [drainFlush, if_neg hsome, hflush]
    refine .broken ?_ (write :: rest) (cons_ne_nil _ _) ?_ rfl
    · rw [DrainsWhole, hpend]
      rintro (⟨refused, store'', href⟩ | ⟨⟨store'', _, hok, hflush'⟩, -⟩)
      · cases hups.symm.trans href
      · cases hall.symm.trans hok
        cases hflush.symm.trans hflush'
    · rw [hpend]
      exact (append_nil _).symm
  · rw [drainAsync, hpend, hloop]
    dsimp only
    rw [drainFlush, if_neg hsome, hflush]
    refine .whole ?_ rfl ?_ ?_
    · rw [DrainsWhole, hpend]
      constructor
      · rintro (⟨refused, store'', href⟩ | ⟨-, hcount⟩)
        · cases hups.symm.trans href
        · exact hcount
      · exact fun hcount ↦ .inr ⟨⟨store, store', hall, hflush⟩, hcount⟩
    · rw [hpend]
      unfold saturatingAdd
      dsimp only
      omega
    · rw [hflush] at hmore hflushed
      rwa [hpend, ← journal_upsertAll hall, ← hflushed rfl]

/-! ### Accounting -/

/-- Queue and count are as they were; the store may have been called. -/
structure Untouched (path path' : DurabilityWritePath (σ × List StoreEvent)) : Prop where
  pending : path'.pending = path.pending
  total : path'.metrics.asyncDrainedTotal = path.metrics.asyncDrainedTotal
  journal : ∃ more, path'.store.2 = path.store.2 ++ more

theorem untouched_of_eq {path path' : DurabilityWritePath (σ × List StoreEvent)}
    (hpend : path'.pending = path.pending)
    (htotal : path'.metrics.asyncDrainedTotal = path.metrics.asyncDrainedTotal)
    (hstore : path'.store = path.store) : Untouched path path' :=
  ⟨hpend, htotal, [], by rw [hstore, append_nil]⟩

theorem journal_upsert (backend : DurableBackend σ) (store : σ × List StoreEvent) (key : Key)
    (record : ReplicatedValueRecord) :
    ∃ more, ((journaled backend).upsert store key record).2.2 = store.2 ++ more := by
  unfold journaled
  dsimp only
  rcases backend.upsert store.1 key record with ⟨error | ⟨⟩, next⟩
  · exact ⟨[], (append_nil _).symm⟩
  · exact ⟨[.upsert key record], rfl⟩

section

variable (backend : DurableBackend σ) (path : DurabilityWritePath (σ × List StoreEvent))

theorem untouched_writeSync (key : Key) (record : ReplicatedValueRecord) :
    Untouched path (path.writeSync (journaled backend) key record).2 ∧
      ∀ watermark lag, (path.writeSync (journaled backend) key record).1 ≠
        .ok (.queued watermark lag) := by
  obtain ⟨more, hmore⟩ := journal_upsert backend path.store key record
  rw [writeSync]
  rcases hups : (journaled backend).upsert path.store key record with ⟨error | ⟨⟩, store⟩
  · rw [hups] at hmore
    exact ⟨⟨rfl, rfl, more, hmore⟩, nofun⟩
  · rw [hups] at hmore
    dsimp only at hmore ⊢
    obtain ⟨later, hlater, -⟩ := journal_flushDurable backend store
    have hboth : ((journaled backend).flushDurable store).2.2 =
        path.store.2 ++ (more ++ later) := by
      rw [hlater, hmore, append_assoc]
    rcases hflush : (journaled backend).flushDurable store with ⟨error | ⟨⟩, store'⟩
    · rw [hflush] at hboth
      exact ⟨⟨rfl, rfl, _, hboth⟩, nofun⟩
    · rw [hflush] at hboth
      exact ⟨⟨rfl, rfl, _, hboth⟩, nofun⟩

theorem untouched_takeSnapshot (ns : String) (now : ℕ) (watermark : WriteWatermark) (interval : ℕ) :
    Untouched path (path.takeSnapshot (journaled backend) ns now watermark interval).2 := by
  obtain ⟨more, hmore, -⟩ := journal_flushDurable backend path.store
  rw [takeSnapshot]
  rcases hflush : (journaled backend).flushDurable path.store with ⟨error | ⟨⟩, store⟩
  · rw [hflush] at hmore
    exact ⟨rfl, rfl, more, hmore⟩
  · rw [hflush] at hmore
    dsimp only
    rcases (DurabilitySnapshotManifest.new ns watermark now interval).verify with error | ⟨⟩
    · exact ⟨rfl, rfl, more, hmore⟩
    · exact ⟨rfl, rfl, more, hmore⟩

/-- A snapshot that is due drains the queue, and what follows touches neither queue nor count. -/
theorem untouched_maybeSnapshot {path : DurabilityWritePath (σ × List StoreEvent)}
    {ns : String} {now interval : ℕ} (hdue : path.snapshotDue ns now = .ok (some interval))
    (watermark : WriteWatermark) :
    Untouched (path.drainAsync (journaled backend)).2
      (path.maybeSnapshot (journaled backend) ns now watermark).2 := by
  rw [maybeSnapshot, hdue]
  rcases path.drainAsync (journaled backend) with ⟨error | count, path'⟩
  · exact untouched_of_eq rfl rfl rfl
  · exact untouched_takeSnapshot backend path' ns now watermark interval

/-- What a write can do: it is queued, or neither queue nor count changes. -/
theorem write_cases (ns : String) (key : Key) (record : ReplicatedValueRecord) :
    (∃ watermark lag path', path.write (journaled backend) ns key record =
      (.ok (.queued watermark lag), path') ∧
        path'.pending = path.pending ++ [⟨ns, key, record⟩] ∧
        path'.metrics.asyncDrainedTotal = path.metrics.asyncDrainedTotal ∧
        path'.store = path.store) ∨
      (Untouched path (path.write (journaled backend) ns key record).2 ∧
        ∀ watermark lag, (path.write (journaled backend) ns key record).1 ≠
          .ok (.queued watermark lag)) := by
  rw [write]
  rcases path.policy.resolveForRegion ns path.localRegion path.placement with error | resolved
  · exact .inr ⟨untouched_of_eq rfl rfl rfl, nofun⟩
  dsimp only
  split_ifs with hram
  · exact .inr ⟨untouched_of_eq rfl rfl rfl, nofun⟩
  rcases resolved.durability with _ | maxLag
  · exact .inr (untouched_writeSync backend path key record)
  · dsimp only
    rw [writeAsync]
    split_ifs with hlag
    · exact .inr ⟨untouched_of_eq rfl rfl rfl, nofun⟩
    · exact .inl ⟨_, _, _, rfl, rfl, rfl, rfl⟩

end

theorem Covered.append {journal : List StoreEvent} {writes : List PendingDurableWrite}
    (h : Covered journal writes) (more : List StoreEvent) : Covered (journal ++ more) writes := by
  rcases h with rfl | ⟨before, after, rfl, hsub⟩
  · exact .inl rfl
  · exact .inr ⟨before, after ++ more, by rw [append_assoc, cons_append], hsub⟩

theorem Covered.sublist {journal : List StoreEvent} {writes : List PendingDurableWrite}
    (h : Covered journal writes) :
    (writes.map fun write ↦ StoreEvent.upsert write.key write.record).Sublist journal := by
  rcases h with rfl | ⟨before, after, rfl, hsub⟩
  · exact nil_sublist _
  · exact hsub.trans (sublist_append_left _ _)

variable {backend : DurableBackend σ} {s : DurabilityRun σ}
  {path' : DurabilityWritePath (σ × List StoreEvent)}

theorem Accounted.untouched (h : Accounted s) (hpath : Untouched s.path path') :
    Accounted { s with path := path' } := by
  obtain ⟨more, hmore⟩ := hpath.journal
  obtain ⟨settled, hqueue, hcov⟩ := h.settled
  refine ⟨⟨settled, ?_, ?_⟩, ?_⟩
  · rw [hqueue]
    exact congrArg (settled ++ ·) hpath.pending.symm
  · rw [hmore]
    exact hcov.append more
  · dsimp only
    rw [hpath.total, hpath.pending]
    exact h.number

theorem Accounted.queue (h : Accounted s) {write : PendingDurableWrite}
    (hpend : path'.pending = s.path.pending ++ [write])
    (htotal : path'.metrics.asyncDrainedTotal = s.path.metrics.asyncDrainedTotal)
    (hstore : path'.store = s.path.store) :
    Accounted { path := path', queued := s.queued ++ [write] } := by
  obtain ⟨settled, hqueue, hcov⟩ := h.settled
  have hnumber := h.number
  refine ⟨⟨settled, ?_, ?_⟩, ?_⟩
  · rw [hqueue, hpend, append_assoc]
  · dsimp only
    rwa [hstore]
  · rw [htotal, hpend, length_append, length_append, hnumber, Nat.add_assoc]

theorem Accounted.drained (h : Accounted s) (hdrain : Drained backend s.path path')
    (hdrains : DrainsWhole (journaled backend) s.path) : Accounted { s with path := path' } := by
  cases hdrain with
  | idle _ hpend htotal hjour =>
    refine h.untouched ⟨hpend, htotal, [], ?_⟩
    rw [hjour, append_nil]
  | whole hwhole hpend htotal hjour =>
    obtain ⟨settled, hqueue, hcov⟩ := h.settled
    refine ⟨⟨s.queued, ?_, .inr ⟨_, [], hjour, ?_⟩⟩, ?_⟩
    · rw [hpend, append_nil]
    · rw [hqueue, map_append]
      exact hcov.sublist.append (List.Sublist.refl _)
    · dsimp only
      rw [htotal, hpend, saturatingAdd_of_le (hwhole.mp hdrains), length_nil]
      exact h.number
  | broken hwhole => exact absurd hdrains hwhole

/-- A drain after which the number is right was whole. -/
theorem Accounted.drainsWhole (h : Accounted s) (hdrain : Drained backend s.path path')
    (hafter : s.queued.length = path'.metrics.asyncDrainedTotal + path'.pending.length) :
    DrainsWhole (journaled backend) s.path := by
  have hnumber := h.number
  cases hdrain with
  | idle hwhole => exact hwhole
  | whole hwhole hpend htotal =>
    rw [hwhole]
    rw [htotal, hpend, saturatingAdd, length_nil] at hafter
    omega
  | broken _ _ hfirst hpend htotal =>
    have hlost := length_pos_iff.mpr hfirst
    rw [htotal] at hafter
    rw [hpend, length_append] at hnumber
    omega

namespace DurabilityRun

/-- The writes are accounted for after a request exactly if the drain it makes is whole. -/
theorem accounted_apply_iff (h : Accounted s) (request : DurabilityRequest) :
    Accounted (s.apply backend request) ↔ s.Whole backend request := by
  have hdrain := drained_drainAsync backend s.path
  cases request with
  | write ns key record =>
    refine iff_of_true ?_ trivial
    rw [apply]
    rcases write_cases backend s.path ns key record with
      ⟨watermark, lag, path', hwrite, hpend, htotal, hstore⟩ | ⟨hsame, hreply⟩
    · rw [hwrite]
      exact h.queue hpend htotal hstore
    · split
      · rename_i watermark lag path' hwrite
        exact absurd (congrArg Prod.fst hwrite) (hreply watermark lag)
      · rename_i hwrite
        rw [hwrite] at hsame
        exact h.untouched hsame
  | drainAsync => exact ⟨fun hacc ↦ h.drainsWhole hdrain hacc.number, h.drained hdrain⟩
  | maybeSnapshot ns now watermark =>
    rw [apply, Whole]
    rcases hdue : s.path.snapshotDue ns now with error | _ | interval
    · rw [maybeSnapshot, hdue]
      exact iff_of_true h nofun
    · rw [maybeSnapshot, hdue]
      exact iff_of_true h nofun
    · have hsame := untouched_maybeSnapshot backend hdue watermark
      constructor
      · intro hacc _ _
        have hafter := hacc.number
        rw [hsame.total, hsame.pending] at hafter
        exact h.drainsWhole hdrain hafter
      · intro hwhole
        exact (h.drained hdrain (hwhole interval rfl)).untouched hsame

/-- A path that has taken no calls yet. -/
def start (store : σ) (policy : PersistencePolicy) (localRegion : RegionId)
    (placement : PersistenceRegionPlacement) : DurabilityRun σ where
  path := { store := (store, []), policy, localRegion, placement }

/-- Over every store, policy and sequence of requests, whatever fails: after each request the
acknowledged writes are accounted for, exactly along the requests whose drains are whole. -/
theorem accounted_iff (backend : DurableBackend σ) (store : σ) (policy : PersistencePolicy)
    (localRegion : RegionId) (placement : PersistenceRegionPlacement)
    (requests : List DurabilityRequest) :
    Along (step backend) (fun s request ↦ Accounted (s.apply backend request))
        (start store policy localRegion placement) requests ↔
      Along (step backend) (Whole backend) (start store policy localRegion placement) requests := by
  refine along_congr (R := Accounted) (fun s request h ↦ accounted_apply_iff h request) ?_ ?_
  · rintro s request s' - hacc ⟨⟩
    exact hacc
  · exact ⟨⟨[], rfl, .inl rfl⟩, rfl⟩

end DurabilityRun

/-! ### A flush that fails -/

/-- A store that takes every write and cannot be flushed. -/
def unflushable : DurableBackend Unit where
  upsert store _ _ := (.ok (), store)
  flushDurable store := (.error ⟨"disk full"⟩, store)

def everywhere : PersistencePolicy where
  rules := [{ matcher := .default, settings := { persist := true } }]

def orders : List DurabilityRequest :=
  [.write "orders" "7" (.value 0 1 1 [1]), .drainAsync]

/-- The write is acknowledged as queued; after the drain it is neither pending nor covered by a
flush, and it is not counted. -/
theorem queued_write_lost :
    ∃ s, run (DurabilityRun.step unflushable)
        (.start () everywhere "eu" (.new "eu" ∅)) orders = some s ∧
      s.queued.length = 1 ∧ s.path.pending = [] ∧ StoreEvent.flush ∉ s.path.store.2 ∧
        s.path.metrics.asyncDrainedTotal = 0 :=
  ⟨_, rfl, by decide⟩

end HydraCache.Grid
