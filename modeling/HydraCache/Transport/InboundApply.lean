import HydraCache.Lib.Consecutive
import HydraCache.Lib.KeyMap
import HydraCache.Lib.Word
import Mathlib.Data.Finset.Basic

/-!
# Inbound invalidation frames

Invalidations come from other processes as frames. The apply loop of a relay drops those it must not
apply: frames of another version or cluster, its own, those of an older generation of their source
than it has seen, those it remembers, and those above the rate of their source. A ring keeps the
last invalidations of a partition to replay them to a relay that missed some; what is replayed comes
as frames of a source of its own, under the sequence numbers of the ring. `replayFrom_exact` says
what a ring replays.

A frame whose generation is not below the highest of its source, and whose id is not remembered, is
applied (`shouldDrop_eq_none`). The fence and the window take nothing in but the generation and the
id of the frame (`takesIn_shouldDrop`).

Scope. The counters of the relay and of the ring are left out; which of them is counted is the
reason a frame is dropped for. The bytes of frames are left out.
-/

set_option autoImplicit false

namespace HydraCache.Transport

open Lib

/-! ### Frames -/

inductive CacheInvalidation where
  | key (key : String)
  | tag (tag : String)
  | flush
deriving DecidableEq

def frameVersion : ℕ := 1

structure CacheInvalidationFrame where
  version : ℕ := frameVersion
  messageId : Option ℕ := none
  clusterName : Option String := none
  sourceId : String
  sourceGeneration : Option ℕ := none
  invalidation : CacheInvalidation
deriving DecidableEq

/-! ### The ring -/

structure InvalidationEvent where
  sequence : ℕ
  partition : ℕ
  invalidation : CacheInvalidation
  sourceGeneration : Option ℕ
deriving DecidableEq

inductive ReplayResult where
  | range (events : List InvalidationEvent)
  | fellBehind (clearPartition : ℕ)
deriving DecidableEq

structure InvalidationRing where
  partition : ℕ
  capacity : ℕ
  headSeq : ℕ := 0
  nextSeq : ℕ := 0
  events : List InvalidationEvent := []
deriving DecidableEq

namespace InvalidationRing

def new (partition capacity : ℕ) : InvalidationRing where
  partition
  capacity := max capacity 1

/-- The retained events with one more, without the oldest if the ring is full. -/
def retained (ring : InvalidationRing) (event : InvalidationEvent) : List InvalidationEvent :=
  (if ring.events.length = ring.capacity then ring.events.tail else ring.events) ++ [event]

def publishWithGeneration (ring : InvalidationRing) (invalidation : CacheInvalidation)
    (sourceGeneration : Option ℕ) : ℕ × InvalidationRing :=
  let event : InvalidationEvent :=
    { sequence := ring.nextSeq, partition := ring.partition, invalidation, sourceGeneration }
  let nextSeq := saturatingSucc ring.nextSeq
  (ring.nextSeq,
    { ring with
      nextSeq
      events := ring.retained event
      headSeq := (ring.retained event).head?.elim nextSeq (·.sequence) })

def replayFrom (ring : InvalidationRing) (lastSeen : ℕ) : ReplayResult :=
  if ring.events.isEmpty then .range []
  else if saturatingSucc lastSeen < ring.headSeq then .fellBehind ring.partition
  else .range (ring.events.filter fun event ↦ decide (lastSeen < event.sequence))

end InvalidationRing

/-- The source that replayed events are sent under. -/
def resumeSource : String := "transport-resume"

section

variable (partition : ℕ)

/-- The source that a flush is sent under, when a requester fell behind. -/
def clearSource : String := "transport-resume-partition-" ++ toString partition

def frameFromReplayEvent (event : InvalidationEvent) : CacheInvalidationFrame where
  messageId := some event.sequence
  sourceId := resumeSource
  sourceGeneration := event.sourceGeneration
  invalidation := event.invalidation

def clearPartitionFrame (lastSeen : ℕ) : CacheInvalidationFrame where
  messageId := some (saturatingSucc lastSeen)
  sourceId := clearSource partition
  invalidation := .flush

theorem length_resumeSource_lt : resumeSource.length < (clearSource partition).length := by
  have hlt : resumeSource.length < "transport-resume-partition-".length := by decide +kernel
  have hlen : (clearSource partition).length = _ := String.length_append _ _
  rw [hlen]
  exact hlt.trans_le (Nat.le_add_right _ _)

theorem clearSource_ne_resumeSource : clearSource partition ≠ resumeSource := by
  intro h
  have hlt := length_resumeSource_lt partition
  rw [h] at hlt
  exact lt_irrefl _ hlt

end

/-! ### The apply loop -/

structure DedupKey where
  sourceId : String
  messageId : ℕ
deriving DecidableEq

structure DedupWindow where
  capacity : ℕ
  order : List DedupKey := []
  seen : Finset DedupKey := ∅

namespace DedupWindow

/-- Forget the oldest keys beyond the capacity. -/
def trim (capacity : ℕ) : List DedupKey → Finset DedupKey → List DedupKey × Finset DedupKey
  | [], seen => ([], seen)
  | key :: order, seen =>
    if capacity < (key :: order).length then trim capacity order (seen.erase key)
      else (key :: order, seen)

/-- Remember a key; it is false that one is new which is remembered. -/
def remember (window : DedupWindow) (key : DedupKey) : Bool × DedupWindow :=
  if window.capacity = 0 then (true, window)
  else if key ∈ window.seen then (false, window)
  else
    let trimmed := trim window.capacity (window.order ++ [key]) (insert key window.seen)
    (true, { window with order := trimmed.1, seen := trimmed.2 })

theorem trim_subset (capacity : ℕ) (order : List DedupKey) (seen : Finset DedupKey) :
    (trim capacity order seen).2 ⊆ seen := by
  induction order generalizing seen with
  | nil => exact Finset.Subset.refl seen
  | cons key _ ih =>
    unfold trim
    split_ifs
    · exact (ih _).trans (Finset.erase_subset key seen)
    · exact Finset.Subset.refl seen

variable {window : DedupWindow} {key : DedupKey}

theorem seen_remember (window : DedupWindow) (key : DedupKey) :
    (window.remember key).2.seen ⊆ insert key window.seen := by
  unfold remember
  split_ifs
  · exact Finset.subset_insert key window.seen
  · exact Finset.subset_insert key window.seen
  · exact trim_subset _ _ _

theorem capacity_remember (window : DedupWindow) (key : DedupKey) :
    (window.remember key).2.capacity = window.capacity := by
  unfold remember
  split_ifs <;> rfl

theorem remember_eq_true_iff :
    (window.remember key).1 = true ↔ window.capacity = 0 ∨ key ∉ window.seen := by
  unfold remember
  split_ifs with hcap hseen <;> simp [*]

end DedupWindow

structure TransportConfig where
  clusterName : String := "default"
  localNodeId : String := "hydracache-node"
  inboundCapacity : ℕ := 1024
  dedupWindow : ℕ := 4096
  inboundRateLimitPerSource : Option ℕ := none

/-- Why a frame is not applied. -/
inductive DropReason where
  | unknownVersion
  | foreignCluster
  | ownFrame
  | fenced
  | deduped
  | rateLimited
deriving DecidableEq

structure InboundApplyState where
  dedup : DedupWindow
  highestGeneration : KeyMap String ℕ := ∅
  rateLimitedBySource : KeyMap String ℕ := ∅

namespace InboundApplyState

def new (dedupWindow : ℕ) : InboundApplyState where
  dedup := { capacity := dedupWindow }

section

variable (state : InboundApplyState)

section

variable (frame : CacheInvalidationFrame)

def isStaleGeneration : Bool × InboundApplyState :=
  match frame.sourceGeneration with
  | none => (false, state)
  | some generation =>
    match state.highestGeneration.lookup frame.sourceId with
    | some highest =>
      if generation < highest then (true, state)
      else if highest < generation then
        (false,
          { state with
          highestGeneration := state.highestGeneration.insert frame.sourceId generation })
      else (false, state)
    | none =>
      (false,
        { state with
        highestGeneration := state.highestGeneration.insert frame.sourceId generation })

def isRateLimited (config : TransportConfig) : Bool × InboundApplyState :=
  match config.inboundRateLimitPerSource with
  | none => (false, state)
  | some limit =>
    let count := (state.rateLimitedBySource.lookup frame.sourceId).getD 0
    if limit ≤ count then
      (true,
        { state with rateLimitedBySource := state.rateLimitedBySource.insert frame.sourceId count })
    else
      (false,
        { state with
          rateLimitedBySource :=
            state.rateLimitedBySource.insert frame.sourceId (saturatingSucc count) })

/-- Remember the id of a frame, if it has one. -/
def remember : Bool × InboundApplyState :=
  match frame.messageId with
  | none => (true, state)
  | some messageId =>
    let remembered := state.dedup.remember ⟨frame.sourceId, messageId⟩
    (remembered.1, { state with dedup := remembered.2 })

/-- Why the frame is dropped, or none if it is applied. -/
def shouldDrop (config : TransportConfig) : Option DropReason × InboundApplyState :=
  if frame.version ≠ frameVersion then (some .unknownVersion, state)
  else if frame.clusterName.any fun cluster ↦ decide (cluster ≠ config.clusterName) then
    (some .foreignCluster, state)
  else if frame.sourceId = config.localNodeId then (some .ownFrame, state)
  else
    match state.isStaleGeneration frame with
    | (true, state) => (some .fenced, state)
    | (false, state) =>
      match state.remember frame with
      | (false, state) => (some .deduped, state)
      | (true, state) =>
        match state.isRateLimited frame config with
        | (true, state) => (some .rateLimited, state)
        | (false, state) => (none, state)

end

end

/-! ### What the loop keeps -/

variable {state : InboundApplyState} {frame : CacheInvalidationFrame} {config : TransportConfig}
  {next : InboundApplyState}

/-- The fence leaves the state as it is, or takes in the generation of the frame. -/
theorem isStaleGeneration_cases (state : InboundApplyState) (frame : CacheInvalidationFrame) :
    (state.isStaleGeneration frame).2 = state ∨
      ∃ generation ∈ frame.sourceGeneration, (state.isStaleGeneration frame).2 =
        { state with
          highestGeneration := state.highestGeneration.insert frame.sourceId generation } := by
  unfold isStaleGeneration
  cases frame.sourceGeneration with
  | none => exact .inl rfl
  | some generation =>
    cases state.highestGeneration.lookup frame.sourceId with
    | none => exact .inr ⟨generation, rfl, rfl⟩
    | some =>
      dsimp only
      split_ifs
      · exact .inl rfl
      · exact .inr ⟨generation, rfl, rfl⟩
      · exact .inl rfl

theorem dedup_isStaleGeneration (state : InboundApplyState) (frame : CacheInvalidationFrame) :
    (state.isStaleGeneration frame).2.dedup = state.dedup := by
  obtain h | ⟨_, _, h⟩ := isStaleGeneration_cases state frame <;> rw [h]

/-- A frame is stale when its generation is below the highest of its source. -/
theorem isStaleGeneration_eq_false
    (h : ∀ highest ∈ state.highestGeneration.lookup frame.sourceId,
      ∀ generation ∈ frame.sourceGeneration, highest ≤ generation) :
    (state.isStaleGeneration frame).1 = false := by
  unfold isStaleGeneration
  cases hgen : frame.sourceGeneration with
  | none => rfl
  | some generation =>
    cases hhigh : state.highestGeneration.lookup frame.sourceId with
    | none => rfl
    | some highest =>
      dsimp only
      rw [if_neg (not_lt.mpr (h highest hhigh generation hgen))]
      split_ifs <;> rfl

/-- What a frame can do to the state of the loop: its own generation and its own id are all that
comes in. -/
structure TakesIn (state next : InboundApplyState) (frame : CacheInvalidationFrame) : Prop where
  highest : ∀ source highest, next.highestGeneration.lookup source = some highest →
    state.highestGeneration.lookup source = some highest ∨
      source = frame.sourceId ∧ frame.sourceGeneration = some highest
  seen : ∀ key ∈ next.dedup.seen,
    key ∈ state.dedup.seen ∨ key.sourceId = frame.sourceId ∧ frame.messageId = some key.messageId
  capacity : next.dedup.capacity = state.dedup.capacity

theorem TakesIn.refl (state : InboundApplyState) (frame : CacheInvalidationFrame) :
    TakesIn state state frame := ⟨fun _ _ ↦ Or.inl, fun _ ↦ Or.inl, rfl⟩

theorem takesIn_isStaleGeneration (state : InboundApplyState) (frame : CacheInvalidationFrame) :
    TakesIn state (state.isStaleGeneration frame).2 frame := by
  obtain h | ⟨generation, hgen, h⟩ := isStaleGeneration_cases state frame
  · rw [h]
    exact .refl state frame
  · rw [h]
    refine ⟨fun source highest hlook ↦ ?_, fun _ ↦ Or.inl, rfl⟩
    obtain ⟨hsrc, rfl⟩ | hlook := KeyMap.of_lookup_insert hlook
    · exact .inr ⟨hsrc, hgen⟩
    · exact .inl hlook

theorem TakesIn.remember (h : TakesIn state next frame) :
    TakesIn state (next.remember frame).2 frame := by
  unfold InboundApplyState.remember
  cases hid : frame.messageId with
  | none => exact h
  | some =>
    refine ⟨h.highest, fun key hkey ↦ ?_, (DedupWindow.capacity_remember _ _).trans h.capacity⟩
    rcases Finset.mem_insert.mp (DedupWindow.seen_remember _ _ hkey) with rfl | hseen
    · exact .inr ⟨rfl, hid⟩
    · exact h.seen key hseen

theorem TakesIn.isRateLimited (h : TakesIn state next frame)
    (config : TransportConfig) : TakesIn state (next.isRateLimited frame config).2 frame := by
  unfold InboundApplyState.isRateLimited
  split
  · exact h
  · dsimp only
    split_ifs <;> exact { h with }

theorem takesIn_shouldDrop (state : InboundApplyState) (frame : CacheInvalidationFrame)
    (config : TransportConfig) : TakesIn state (state.shouldDrop frame config).2 frame := by
  unfold shouldDrop
  have hstale := takesIn_isStaleGeneration state frame
  split_ifs
  · exact .refl state frame
  · exact .refl state frame
  · exact .refl state frame
  · generalize state.isStaleGeneration frame = fenced at hstale ⊢
    obtain ⟨stale, next⟩ := fenced
    cases stale with
    | true => exact hstale
    | false =>
      have hrem := hstale.remember
      dsimp only at hrem ⊢
      generalize next.remember frame = remembered at hrem ⊢
      obtain ⟨fresh, next⟩ := remembered
      cases fresh with
      | false => exact hrem
      | true =>
        have hlim := hrem.isRateLimited config
        dsimp only at hlim ⊢
        generalize next.isRateLimited frame config = limited at hlim ⊢
        obtain ⟨above, next⟩ := limited
        cases above <;> exact hlim

/-- Assumes: a frame of the right version that names no cluster and is not of this node, no limit of
the rate, a generation that is not below the highest of its source, and an id that is not
remembered. The frame is applied. -/
theorem shouldDrop_eq_none {messageId : ℕ} (hver : frame.version = frameVersion)
    (hcluster : frame.clusterName = none) (hsrc : frame.sourceId ≠ config.localNodeId)
    (hlimit : config.inboundRateLimitPerSource = none) (hid : frame.messageId = some messageId)
    (hfence : ∀ highest ∈ state.highestGeneration.lookup frame.sourceId,
      ∀ generation ∈ frame.sourceGeneration, highest ≤ generation)
    (hseen : state.dedup.capacity = 0 ∨ ⟨frame.sourceId, messageId⟩ ∉ state.dedup.seen) :
    (state.shouldDrop frame config).1 = none := by
  have hstale := isStaleGeneration_eq_false hfence
  have hdedup := dedup_isStaleGeneration state frame
  rw [shouldDrop, if_neg (not_not.mpr hver), hcluster, if_neg (by simp), if_neg hsrc]
  generalize state.isStaleGeneration frame = fenced at hstale hdedup ⊢
  obtain ⟨stale, next⟩ := fenced
  subst hstale
  have hrem : (next.remember frame).1 = true := by
    rw [remember, hid, hdedup]
    exact DedupWindow.remember_eq_true_iff.mpr hseen
  dsimp only
  generalize next.remember frame = remembered at hrem ⊢
  obtain ⟨fresh, next⟩ := remembered
  subst hrem
  unfold isRateLimited
  rw [hlimit]

end InboundApplyState

/-! ### What a ring replays -/

structure InvalidationRingSnapshot where
  partition : ℕ
  capacity : ℕ
  headSeq : ℕ
  nextSeq : ℕ
  events : List InvalidationEvent

namespace InvalidationRing

def snapshot (ring : InvalidationRing) : InvalidationRingSnapshot where
  __ := ring

def restore (snapshot : InvalidationRingSnapshot) : InvalidationRing where
  __ := snapshot
  capacity := max snapshot.capacity 1

inductive Call
  | publish (invalidation : CacheInvalidation) (sourceGeneration : Option ℕ)
  /-- The ring is replaced by the one restored from its snapshot. -/
  | restore

def after (ring : InvalidationRing) : Call → InvalidationRing
  | .publish invalidation sourceGeneration =>
    (ring.publishWithGeneration invalidation sourceGeneration).2
  | .restore => restore ring.snapshot

/-- The events of all calls, those that were overwritten included. -/
def published (partition : ℕ) : ℕ → List Call → List InvalidationEvent
  | _, [] => []
  | sequence, .publish invalidation sourceGeneration :: calls =>
    ⟨sequence, partition, invalidation, sourceGeneration⟩ ::
      published partition (sequence + 1) calls
  | sequence, .restore :: calls => published partition sequence calls

/-- The ring that holds the last events of a history. -/
def holding (partition capacity : ℕ) (log : List InvalidationEvent) : InvalidationRing where
  partition
  capacity
  headSeq := log.length - capacity
  nextSeq := log.length
  events := log.drop (log.length - capacity)

variable {partition capacity : ℕ}

theorem consecutiveFrom_published (partition sequence : ℕ) (calls : List Call) :
    ConsecutiveFrom InvalidationEvent.sequence sequence (published partition sequence calls) := by
  induction calls generalizing sequence with
  | nil => trivial
  | cons call _ ih =>
    cases call with
    | publish => exact ⟨rfl, ih (sequence + 1)⟩
    | restore => exact ih sequence

theorem publish_holding (hcap : 1 ≤ capacity) {log : List InvalidationEvent}
    (hlog : ConsecutiveFrom InvalidationEvent.sequence 0 log) (hword : log.length < maxWord)
    (invalidation : CacheInvalidation) (sourceGeneration : Option ℕ) :
    ((holding partition capacity log).publishWithGeneration invalidation sourceGeneration).2 =
      holding partition capacity
        (log ++ [⟨log.length, partition, invalidation, sourceGeneration⟩]) := by
  have hnext : saturatingSucc log.length = log.length + 1 := saturatingSucc_of_lt hword
  set event : InvalidationEvent := ⟨log.length, partition, invalidation, sourceGeneration⟩
  have hkept : (holding partition capacity log).retained event =
      (log ++ [event]).drop (log.length + 1 - capacity) := by
    unfold retained holding
    dsimp only
    rw [List.length_drop]
    split_ifs with hfull
    · rw [List.tail_drop, List.drop_append_of_le_length (by omega)]
      congr 2
      omega
    · rw [List.drop_append_of_le_length (by omega)]
      congr 2
      omega
  have hhead : ((log ++ [event]).drop (log.length + 1 - capacity)).head?.elim (log.length + 1)
      (·.sequence) = log.length + 1 - capacity := by
    have hlast : ConsecutiveFrom InvalidationEvent.sequence (0 + log.length) [event] :=
      ⟨(Nat.zero_add _).symm, trivial⟩
    have hdrop := (hlog.append hlast).drop (log.length + 1 - capacity)
    cases hrest : (log ++ [event]).drop (log.length + 1 - capacity) with
    | nil =>
      have hlen := List.drop_eq_nil_iff.mp hrest
      rw [List.length_append, List.length_singleton] at hlen
      omega
    | cons =>
      rw [hrest] at hdrop
      exact hdrop.1.trans (Nat.zero_add _)
  change { holding partition capacity log with
    headSeq :=
      ((holding partition capacity log).retained event).head?.elim (saturatingSucc log.length)
      (·.sequence)
    nextSeq := saturatingSucc log.length
    events := (holding partition capacity log).retained event : InvalidationRing } = _
  rw [hkept, hnext, hhead]
  simp [holding]

theorem foldl_holding (hcap : 1 ≤ capacity) (calls : List Call) (log : List InvalidationEvent)
    (hlog : ConsecutiveFrom InvalidationEvent.sequence 0 log)
    (hword : (log ++ published partition log.length calls).length ≤ maxWord) :
    calls.foldl after (holding partition capacity log) =
      holding partition capacity (log ++ published partition log.length calls) := by
  induction calls generalizing log with
  | nil =>
    rw [published, List.append_nil]
    rfl
  | cons call calls ih =>
    cases call with
    | publish invalidation sourceGeneration =>
      set event : InvalidationEvent := ⟨log.length, partition, invalidation, sourceGeneration⟩
      have hlog' : ConsecutiveFrom InvalidationEvent.sequence 0 (log ++ [event]) :=
        hlog.append ⟨(Nat.zero_add _).symm, trivial⟩
      have hrest :
        log ++ published partition log.length (.publish invalidation sourceGeneration :: calls) =
          log ++ [event] ++ published partition (log ++ [event]).length calls := by
        simp [published, event]
      rw [hrest] at hword ⊢
      have hlen : log.length < maxWord := by
        simp only [List.length_append, List.length_singleton] at hword
        omega
      rw [List.foldl_cons, after, publish_holding hcap hlog hlen]
      exact ih _ hlog' hword
    | restore =>
      have hsame : (holding partition capacity log).after .restore =
          holding partition capacity log := by
        simp [after, restore, snapshot, holding, hcap]
      rw [List.foldl_cons, hsame]
      exact ih _ hlog hword

/-- Assumes: fewer than 2⁶⁴ events were published. The ring retains the last of them, as many as its
capacity allows, whether it was restored in between or not. It replays exactly the events after one
that was published if all of them are retained, and a clearing of the partition exactly if one was
overwritten. -/
theorem replayFrom_exact (partition capacity : ℕ) (calls : List Call) {ring : InvalidationRing}
    (hring : calls.foldl after (.new partition capacity) = ring)
    (hword : (published partition 0 calls).length ≤ maxWord) :
    ring.events = (published partition 0 calls).drop
        ((published partition 0 calls).length - max capacity 1) ∧
      ring.events.length ≤ max capacity 1 ∧
      ∀ lastSeen < (published partition 0 calls).length,
        ((∀ event ∈ (published partition 0 calls).drop (lastSeen + 1), event ∈ ring.events) →
          ring.replayFrom lastSeen = .range ((published partition 0 calls).drop (lastSeen + 1))) ∧
        (ring.replayFrom lastSeen = .fellBehind partition ↔
          ∃ event ∈ (published partition 0 calls).drop (lastSeen + 1), event ∉ ring.events) := by
  have hnew : InvalidationRing.new partition capacity = holding partition (max capacity 1) [] := by
    simp [InvalidationRing.new, holding]
  have hcap : 1 ≤ max capacity 1 := Nat.le_max_right ..
  have hlog := consecutiveFrom_published partition 0 calls
  rw [hnew, foldl_holding hcap calls [] trivial hword] at hring
  change holding partition (max capacity 1) (published partition 0 calls) = ring at hring
  generalize published partition 0 calls = log at *
  generalize max capacity 1 = capacity at *
  subst hring
  have hkept := hlog.drop (log.length - capacity)
  rw [Nat.zero_add] at hkept
  refine ⟨rfl, ?_, fun lastSeen hseen ↦ ?_⟩
  · simp only [holding, List.length_drop]
    omega
  have hsucc : saturatingSucc lastSeen = lastSeen + 1 := saturatingSucc_of_lt (hseen.trans_le hword)
  have hsome : (log.drop (log.length - capacity)).isEmpty = false := by
    simp
    omega
  by_cases hcut : lastSeen + 1 < log.length - capacity
  · have hbeh : (holding partition capacity log).replayFrom lastSeen = .fellBehind partition := by
      simp [replayFrom, holding, hsome, hsucc, hcut]
    obtain ⟨event, hevent, hseq⟩ := (hlog.drop (lastSeen + 1)).exists_mem
      (i := lastSeen + 1) (by omega) (by simp; omega)
    have hlost : event ∉ (holding partition capacity log).events := fun hmem ↦
      (hkept.le_of_mem hmem).not_gt (hseq ▸ hcut)
    exact ⟨fun hall ↦ absurd (hall event hevent) hlost, iff_of_true hbeh ⟨event, hevent, hlost⟩⟩
  · have hdrop : log.drop (lastSeen + 1) =
        (log.drop (log.length - capacity)).drop (lastSeen + 1 - (log.length - capacity)) := by
      rw [List.drop_drop]
      congr 1
      omega
    have hrange : (holding partition capacity log).replayFrom lastSeen =
        .range (log.drop (lastSeen + 1)) := by
      simp only [replayFrom, holding, hsome, hsucc, if_neg hcut, hdrop, ← hkept.filter_ge]
      rfl
    rw [hrange]
    refine ⟨fun _ ↦ rfl, iff_of_false nofun ?_⟩
    rintro ⟨event, hevent, hlost⟩
    exact hlost (List.mem_of_mem_drop (hdrop ▸ hevent))

/-- The second of three events is overwritten, and the ring restored before. -/
def overwriting : List Call :=
  [.publish (.key "a") none, .publish (.key "b") none, .restore, .publish (.key "c") none]

theorem replayFrom_exact_overwritten :
    (overwriting.foldl after (.new 7 1)).events = [⟨2, 7, .key "c", none⟩] ∧
      (overwriting.foldl after (.new 7 1)).replayFrom 0 = .fellBehind 7 ∧
      (overwriting.foldl after (.new 7 1)).replayFrom 1 = .range [⟨2, 7, .key "c", none⟩] := by
  obtain ⟨hevents, -, hreplay⟩ := replayFrom_exact 7 1 overwriting rfl (by decide)
  refine ⟨hevents, (hreplay 0 (by decide)).2.mpr ?_, (hreplay 1 (by decide)).1 (by decide)⟩
  exact ⟨⟨1, 7, .key "b", none⟩, by decide, by decide⟩

end InvalidationRing

end HydraCache.Transport
