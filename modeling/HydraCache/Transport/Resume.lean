import HydraCache.Lib.Run
import HydraCache.Transport.InboundApply

/-!
# Resuming an invalidation stream

A relay that missed invalidations asks its ring for what came after the last it saw. The resume loop
puts the events into the inbound queue, or one flush if the ring has lost some of them, and the
apply loop takes them from there with the frames that arrive from outside.

The replayed events stand under one source, whatever source they came from first, and the fence and
the window know only that. So an event whose generation is below one replayed before it is fenced
although the two sources have nothing to do with each other, and the second flush for one last seen
sequence is taken for the first. `resume_applies` says that nothing else is lost: when the replayed
generations do not go down and no flush is asked for twice, every event after the last seen sequence
is applied, and a flush for every request that fell behind.

Scope. The local bus takes what the apply loop gives it. The ring is locked while the resume loop
puts its events into the queue, so nothing is published meanwhile.
-/

set_option autoImplicit false

namespace HydraCache.Transport

open Lib List

/-! ### The relay -/

/-- What a replay puts into the inbound queue. -/
def replayFrames (ring : InvalidationRing) (lastSeen : ℕ) : List CacheInvalidationFrame :=
  match ring.replayFrom lastSeen with
  | .range events => events.map frameFromReplayEvent
  | .fellBehind partition => [clearPartitionFrame partition lastSeen]

/-- The frames in the inbound queue with one more; the oldest is dropped when there is no room. -/
def pushDropOldest (capacity : ℕ) (queue : List CacheInvalidationFrame)
    (frame : CacheInvalidationFrame) :
    List CacheInvalidationFrame :=
  (if queue.length = max capacity 1 then queue.tail else queue) ++ [frame]

structure Relay where
  ring : InvalidationRing
  /-- What the resume loop has still to put into the queue. -/
  replaying : List CacheInvalidationFrame := []
  queue : List CacheInvalidationFrame := []
  apply : InboundApplyState
  /-- What the local bus was given, in order. -/
  applied : List CacheInvalidationFrame := []
  /-- All that resume requests were to put into the queue, in order. -/
  requested : List CacheInvalidationFrame := []

inductive RelayEvent where
  | publish (invalidation : CacheInvalidation) (sourceGeneration : Option ℕ)
  | receive (frame : CacheInvalidationFrame)
  | resume (lastSeen : ℕ)
  | push
  | apply

namespace Relay

def new (config : TransportConfig) (partition capacity : ℕ) : Relay where
  ring := .new partition capacity
  apply := .new config.dedupWindow

/-- The relay after the apply loop took a frame from the queue. -/
def afterApply (config : TransportConfig) (s : Relay) (frame : CacheInvalidationFrame)
    (queue : List CacheInvalidationFrame) : Relay :=
  let decision := s.apply.shouldDrop frame config
  { s with
    queue
    apply := decision.2
    applied := if decision.1.isNone then s.applied ++ [frame] else s.applied }

def step (config : TransportConfig) (s : Relay) : RelayEvent → Option Relay
  | .publish invalidation sourceGeneration =>
    if s.replaying.isEmpty then
      some { s with ring := (s.ring.publishWithGeneration invalidation sourceGeneration).2 }
    else none
  | .receive frame => some { s with queue := pushDropOldest config.inboundCapacity s.queue frame }
  | .resume lastSeen =>
    if s.replaying.isEmpty then
      some { s with
        replaying := replayFrames s.ring lastSeen
        requested := s.requested ++ replayFrames s.ring lastSeen }
    else none
  | .push =>
    match s.replaying with
    | [] => none
    | frame :: replaying =>
      some { s with queue := pushDropOldest config.inboundCapacity s.queue frame, replaying }
  | .apply =>
    match s.queue with
    | [] => none
    | frame :: queue => some (afterApply config s frame queue)

/-- The frame is of a source that the resume loop uses. -/
def isResume (partition : ℕ) (frame : CacheInvalidationFrame) : Bool :=
  decide (frame.sourceId = resumeSource) || decide (frame.sourceId = clearSource partition)

/-! ### What was requested -/

/-- Frames that were not requested before have no generation below one that was. -/
def Unfenced : (requested frames : List CacheInvalidationFrame) → Prop
  | _, [] => True
  | requested, frame :: frames =>
    (frame ∈ requested ∨ ∀ earlier ∈ requested, ∀ generation ∈ earlier.sourceGeneration,
      ∀ later ∈ frame.sourceGeneration, generation ≤ later) ∧ Unfenced (requested ++ [frame]) frames

instance Unfenced.decidable : ∀ requested frames, Decidable (Unfenced requested frames)
  | _, [] => .isTrue trivial
  | requested, frame :: frames =>
    have := Unfenced.decidable (requested ++ [frame]) frames
    inferInstanceAs (Decidable (_ ∧ Unfenced (requested ++ [frame]) frames))

/-- Of the requested frames each stood there before, or has no generation below one before it. -/
def Ordered (requested : List CacheInvalidationFrame) : Prop :=
  ∀ before frame after, requested = before ++ frame :: after →
    frame ∈ before ∨ ∀ earlier ∈ before, ∀ generation ∈ earlier.sourceGeneration,
      ∀ later ∈ frame.sourceGeneration, generation ≤ later

variable {requested frames : List CacheInvalidationFrame} {frame : CacheInvalidationFrame}

theorem Ordered.concat (h : Ordered requested)
    (hframe : frame ∈ requested ∨ ∀ earlier ∈ requested, ∀ generation ∈ earlier.sourceGeneration,
      ∀ later ∈ frame.sourceGeneration, generation ≤ later) : Ordered (requested ++ [frame]) := by
  intro before found after hsplit
  rcases eq_nil_or_concat after with rfl | ⟨init, last, rfl⟩
  · obtain ⟨rfl, hfound⟩ := append_inj' hsplit rfl
    obtain rfl := singleton_inj.mp hfound
    exact hframe
  · rw [concat_eq_append, ← cons_append, ← append_assoc] at hsplit
    exact h before found init (append_inj' hsplit rfl).1

theorem Ordered.append (h : Ordered requested) (hfrms : Unfenced requested frames) :
    Ordered (requested ++ frames) := by
  induction frames generalizing requested with
  | nil => rwa [append_nil]
  | cons _ _ ih =>
    rw [← singleton_append, ← append_assoc]
    exact ih (h.concat hfrms.1) hfrms.2

/-! ### Frames of the resume loop -/

/-- The events published so far, and the frames requested from them. -/
structure Published (s : Relay) (history : List InvalidationEvent) : Prop where
  rising : history.Pairwise fun event later ↦ event.sequence < later.sequence
  below : ∀ event ∈ history, event.sequence < s.ring.nextSeq
  retained : ∀ event ∈ s.ring.events, event ∈ history
  frames : ∀ frame ∈ s.requested, (∃ event ∈ history, frame = frameFromReplayEvent event) ∨
    ∃ lastSeen, frame = clearPartitionFrame s.ring.partition lastSeen

variable {s : Relay} {history : List InvalidationEvent} {config : TransportConfig}

/-- The sequence of an event identifies it. -/
theorem Published.event_eq (h : Published s history) {event other : InvalidationEvent}
    (hevent : event ∈ history) (hother : other ∈ history) (hseq : event.sequence = other.sequence) :
    event = other := by
  have hnodup : (history.map (·.sequence)).Nodup :=
    pairwise_map.mpr (h.rising.imp fun hlt ↦ hlt.ne)
  exact inj_on_of_nodup_map hnodup hevent hother hseq

variable {other : CacheInvalidationFrame} {queue : List CacheInvalidationFrame}

/-- A requested frame is identified by its source and its id. -/
theorem Published.frame_eq (h : Published s history) (hframe : frame ∈ s.requested)
    (hother : other ∈ s.requested) (hsrc : frame.sourceId = other.sourceId)
    (hid : frame.messageId = other.messageId) : frame = other := by
  rcases h.frames frame hframe with ⟨event, hevent, rfl⟩ | ⟨lastSeen, rfl⟩
  · rcases h.frames other hother with ⟨event', hevent', rfl⟩ | ⟨lastSeen', rfl⟩
    · rw [h.event_eq hevent hevent' (Option.some.inj hid)]
    · exact absurd hsrc.symm (clearSource_ne_resumeSource _)
  · rcases h.frames other hother with ⟨event', _, rfl⟩ | ⟨lastSeen', rfl⟩
    · exact absurd hsrc (clearSource_ne_resumeSource _)
    · unfold clearPartitionFrame at hid ⊢
      rw [Option.some.inj hid]

/-- What the apply loop has settled of the requests, with the rest waiting behind it. -/
structure Settled (s : Relay) (settled : List CacheInvalidationFrame) : Prop where
  requested :
    s.requested = settled ++ (s.queue ++ s.replaying).filter (Relay.isResume s.ring.partition)
  applied : ∀ frame ∈ settled, frame ∈ s.applied
  cleared : ∀ lastSeen, s.applied.count (clearPartitionFrame s.ring.partition lastSeen) =
    settled.count (clearPartitionFrame s.ring.partition lastSeen)
  fence : ∀ highest, s.apply.highestGeneration.lookup resumeSource = some highest →
    ∃ frame ∈ settled, frame.sourceGeneration = some highest
  window : ∀ key ∈ s.apply.dedup.seen,
    key.sourceId = resumeSource ∨ key.sourceId = clearSource s.ring.partition →
    ∃ frame ∈ settled, frame.sourceId = key.sourceId ∧ frame.messageId = some key.messageId

/-! ### The apply loop -/

/-- Everything that holds in a state in which no request lost anything. -/
structure Sound (config : TransportConfig) (s : Relay) : Prop where
  published : ∃ history, Published s history
  settled : ∃ settled, Settled s settled
  ordered : Ordered s.requested
  once : config.dedupWindow = 0 ∨
    ∀ lastSeen, s.requested.count (clearPartitionFrame s.ring.partition lastSeen) ≤ 1
  capacity : s.apply.dedup.capacity = config.dedupWindow

/-- The relay is not a source of the resume loop, and no limit of rates is set. -/
structure Plain (config : TransportConfig) (partition : ℕ) : Prop where
  notResume : resumeSource ≠ config.localNodeId
  notClear : clearSource partition ≠ config.localNodeId
  unlimited : config.inboundRateLimitPerSource = none

variable {settled waiting : List CacheInvalidationFrame}

/-- Assumes: a frame of the resume loop at the head of what waits. It is applied, or was before. -/
theorem Sound.applies (h : Sound config s) (hplain : Plain config s.ring.partition)
    (hset : Settled s settled) (hreq : s.requested = settled ++ frame :: waiting) :
    (s.apply.shouldDrop frame config).1 = none ∨
      frame ∈ settled ∧ frame.sourceId ≠ clearSource s.ring.partition := by
  obtain ⟨_, hpub⟩ := h.published
  have hmem (found : CacheInvalidationFrame) (hfound : found ∈ settled) : found ∈ s.requested := by
    rw [hreq]
    exact mem_append_left _ hfound
  have hframe : frame ∈ s.requested := by
    rw [hreq]
    exact mem_append_right _ mem_cons_self
  -- a frame that is remembered has been settled
  have hunseen (messageId : ℕ) (hid : frame.messageId = some messageId)
      (hsrc : frame.sourceId = resumeSource ∨ frame.sourceId = clearSource s.ring.partition)
      (hnot : frame ∉ settled) : (⟨frame.sourceId, messageId⟩ : DedupKey) ∉ s.apply.dedup.seen := by
    intro hseen
    obtain ⟨found, hfound, hsource', hid'⟩ := hset.window _ hseen hsrc
    rw [hpub.frame_eq (hmem found hfound) hframe hsource' (hid'.trans hid.symm)] at hfound
    exact hnot hfound
  rcases hpub.frames frame hframe with ⟨event, -, rfl⟩ | ⟨lastSeen, rfl⟩
  · by_cases hsettle : frameFromReplayEvent event ∈ settled
    · exact .inr ⟨hsettle, (clearSource_ne_resumeSource _).symm⟩
    · refine .inl
        (InboundApplyState.shouldDrop_eq_none rfl rfl hplain.notResume hplain.unlimited rfl ?_
        (.inr (hunseen _ rfl (.inl rfl) hsettle)))
      intro highest hhigh generation hgen
      obtain ⟨earlier, hprev, hgeneration'⟩ := hset.fence highest hhigh
      exact (h.ordered settled _ waiting hreq).resolve_left hsettle earlier hprev highest
        hgeneration' generation hgen
  · refine .inl
      (InboundApplyState.shouldDrop_eq_none rfl rfl hplain.notClear hplain.unlimited rfl ?_ ?_)
    · intro _ _ generation hgen
      cases hgen
    · rcases h.once with hzero | honce
      · exact .inl (h.capacity.trans hzero)
      · refine .inr (hunseen _ rfl (.inr rfl) fun hsettle ↦ ?_)
        have hcount := honce lastSeen
        rw [hreq, count_append, count_cons_self] at hcount
        have hpos := count_pos_iff.mpr hsettle
        omega

theorem applied_afterApply (config : TransportConfig) (s : Relay) (frame : CacheInvalidationFrame)
    (queue : List CacheInvalidationFrame) :
    (afterApply config s frame queue).applied = s.applied ∨
      (afterApply config s frame queue).applied = s.applied ++ [frame] := by
  unfold afterApply
  dsimp only
  split_ifs
  · exact .inr rfl
  · exact .inl rfl

theorem mem_applied_afterApply {found : CacheInvalidationFrame}
    (h : found ∈ s.applied) : found ∈ (afterApply config s frame queue).applied := by
  rcases applied_afterApply config s frame queue with happ | happ
  · exact happ ▸ h
  · exact happ ▸ mem_append_left _ h

theorem count_concat_of_ne (hne : frame ≠ other) (frames : List CacheInvalidationFrame) :
    (frames ++ [frame]).count other = frames.count other := by
  simp [count_append, hne]

theorem count_applied_afterApply (hne : frame ≠ other) :
    (afterApply config s frame queue).applied.count other = s.applied.count other := by
  rcases applied_afterApply config s frame queue with happ | happ
  · rw [happ]
  · rw [happ, count_concat_of_ne hne]

/-- A frame from outside settles nothing. -/
theorem Settled.afterApply_of_not (hset : Settled s settled)
    (hqueue : s.queue = frame :: queue) (hframe : isResume s.ring.partition frame = false) :
    Settled (afterApply config s frame queue) settled := by
  have htakes := InboundApplyState.takesIn_shouldDrop s.apply frame config
  rw [isResume, Bool.or_eq_false_iff, decide_eq_false_iff_not, decide_eq_false_iff_not] at hframe
  refine ⟨?_, fun found hfound ↦ ?_, fun lastSeen ↦ ?_, fun highest hhigh ↦ ?_,
    fun key hkey hsrc ↦ ?_⟩
  · have hreq := hset.requested
    rw [hqueue, cons_append, filter_cons_of_neg] at hreq
    · exact hreq
    · simp [isResume, hframe.1, hframe.2]
  · exact mem_applied_afterApply (hset.applied found hfound)
  · have hne : frame ≠ clearPartitionFrame s.ring.partition lastSeen := by
      rintro rfl
      exact hframe.2 rfl
    exact (count_applied_afterApply hne).trans (hset.cleared ..)
  · rcases htakes.highest resumeSource highest hhigh with hpre | ⟨hsrc, -⟩
    · exact hset.fence highest hpre
    · exact absurd hsrc.symm hframe.1
  · rcases htakes.seen key hkey with hpre | ⟨hown, -⟩
    · exact hset.window key hpre hsrc
    · rw [hown] at hsrc
      exact (hsrc.elim hframe.1 hframe.2).elim

/-- A frame of the resume loop is settled. -/
theorem Sound.settled_afterApply (h : Sound config s)
    (hplain : Plain config s.ring.partition) (hset : Settled s settled)
    (hqueue : s.queue = frame :: queue) (hframe : isResume s.ring.partition frame = true) :
    Settled (afterApply config s frame queue) (settled ++ [frame]) := by
  have htakes := InboundApplyState.takesIn_shouldDrop s.apply frame config
  have hreq := hset.requested
  rw [hqueue, cons_append, filter_cons_of_pos hframe] at hreq
  have happlies := h.applies hplain hset hreq
  have hnow (hdrop : (s.apply.shouldDrop frame config).1 = none) :
      (afterApply config s frame queue).applied = s.applied ++ [frame] := by
    unfold afterApply
    dsimp only
    rw [hdrop]
    rfl
  refine ⟨?_, fun found hfound ↦ ?_, fun lastSeen ↦ ?_, fun highest hhigh ↦ ?_,
    fun key hkey hsrc ↦ ?_⟩
  · rwa [append_assoc]
  · rcases mem_append.mp hfound with hpre | hlast
    · exact mem_applied_afterApply (hset.applied found hpre)
    · obtain rfl := mem_singleton.mp hlast
      rcases happlies with hdrop | ⟨hpre, -⟩
      · rw [hnow hdrop]
        exact mem_append_right _ hlast
      · exact mem_applied_afterApply (hset.applied found hpre)
  · have hcleared := hset.cleared lastSeen
    rcases happlies with hdrop | ⟨-, hclear⟩
    · rw [hnow hdrop, count_append, count_append]
      exact congrArg (· + _) hcleared
    · have hne : frame ≠ clearPartitionFrame s.ring.partition lastSeen := by
        rintro rfl
        exact hclear rfl
      exact ((count_applied_afterApply hne).trans hcleared).trans (count_concat_of_ne hne ..).symm
  · rcases htakes.highest resumeSource highest hhigh with hpre | ⟨-, hgen⟩
    · obtain ⟨found, hfound, hgen⟩ := hset.fence highest hpre
      exact ⟨found, mem_append_left _ hfound, hgen⟩
    · exact ⟨frame, mem_append_right _ mem_cons_self, hgen⟩
  · rcases htakes.seen key hkey with hpre | ⟨hown, hid⟩
    · obtain ⟨found, hfound, hkey'⟩ := hset.window key hpre hsrc
      exact ⟨found, mem_append_left _ hfound, hkey'⟩
    · exact ⟨frame, mem_append_right _ mem_cons_self, hown.symm, hid⟩

/-! ### Steps -/

/-- The inbound queue has room for what is put into it. -/
def Room (config : TransportConfig) (s : Relay) : RelayEvent → Prop
  | .receive _ | .push => s.queue.length ≠ max config.inboundCapacity 1
  | _ => True

/-- The sequence of the ring is not at its top; frames from outside are of other sources than the
resume loop; what is replayed for the first time has no generation below one that was replayed
before it; and no flush that can be remembered is asked for twice. -/
def Replayable (config : TransportConfig) (s : Relay) : RelayEvent → Prop
  | .publish .. => s.ring.nextSeq < maxWord
  | .receive frame => isResume s.ring.partition frame = false
  | .resume lastSeen => Unfenced s.requested (replayFrames s.ring lastSeen) ∧
    (config.dedupWindow = 0 ∨ clearPartitionFrame s.ring.partition lastSeen ∉ s.requested ∨
      s.ring.replayFrom lastSeen ≠ .fellBehind s.ring.partition)
  | _ => True

instance Room.decidable (config : TransportConfig) (s : Relay) :
    ∀ event, Decidable (Room config s event)
  | .receive _ | .push => inferInstanceAs (Decidable (_ ≠ _))
  | .publish .. | .resume _ | .apply => .isTrue trivial

instance Replayable.decidable (config : TransportConfig) (s : Relay) :
    ∀ event, Decidable (Replayable config s event)
  | .publish .. => inferInstanceAs (Decidable (_ < _))
  | .receive _ => inferInstanceAs (Decidable (_ = false))
  | .resume _ => inferInstanceAs (Decidable (Unfenced _ _ ∧ (_ = _ ∨ _ ∉ _ ∨ _ ≠ _)))
  | .push | .apply => .isTrue trivial

variable {s' : Relay} {event : RelayEvent}

theorem pushDropOldest_of_room {capacity : ℕ} (h : queue.length ≠ max capacity 1) :
    pushDropOldest capacity queue frame = queue ++ [frame] := by
  rw [pushDropOldest, if_neg h]

section

variable (h : Sound config s)
include h

theorem Sound.publish (invalidation : CacheInvalidation) (generation : Option ℕ)
    (hroom : s.ring.nextSeq < maxWord) :
    Sound config { s with ring := (s.ring.publishWithGeneration invalidation generation).2 } := by
  obtain ⟨history, hpub⟩ := h.published
  obtain ⟨settled, hset⟩ := h.settled
  have hnext : saturatingSucc s.ring.nextSeq = s.ring.nextSeq + 1 := saturatingSucc_of_lt hroom
  let event : InvalidationEvent := ⟨s.ring.nextSeq, s.ring.partition, invalidation, generation⟩
  refine ⟨⟨history ++ [event], ?_, fun found hfound ↦ ?_, fun found hfound ↦ ?_,
    fun frame hframe ↦ ?_⟩, ⟨settled, { hset with }⟩, h.ordered, h.once, h.capacity⟩
  · refine pairwise_append.mpr
      ⟨hpub.rising, pairwise_singleton _ _, fun found hfound last hlast ↦ ?_⟩
    rw [mem_singleton.mp hlast]
    exact hpub.below found hfound
  · change found.sequence < saturatingSucc s.ring.nextSeq
    rw [hnext]
    rcases mem_append.mp hfound with hpre | hlast
    · exact (hpub.below found hpre).trans (Nat.lt_succ_self _)
    · rw [mem_singleton.mp hlast]
      exact Nat.lt_succ_self _
  · have hkept : found ∈ s.ring.retained event := hfound
    rcases mem_append.mp hkept with hpre | hlast
    · refine mem_append_left _ (hpub.retained found ?_)
      split_ifs at hpre
      · exact mem_of_mem_tail hpre
      · exact hpre
    · exact mem_append_right _ hlast
  · rcases hpub.frames frame hframe with ⟨source, hsrc, rfl⟩ | hclear
    · exact .inl ⟨source, mem_append_left _ hsrc, rfl⟩
    · exact .inr hclear

theorem Sound.receive (hroom : s.queue.length ≠ max config.inboundCapacity 1)
    (hframe : isResume s.ring.partition frame = false) :
    Sound config { s with queue := pushDropOldest config.inboundCapacity s.queue frame } := by
  obtain ⟨history, hpub⟩ := h.published
  obtain ⟨settled, hset⟩ := h.settled
  refine
    { h with
      published := ⟨history, { hpub with }⟩, settled := ⟨settled, { hset with requested := ?_ }⟩ }
  have hnot : [frame].filter (isResume s.ring.partition) = [] := by
    rw [filter_singleton, hframe]
    rfl
  rw [pushDropOldest_of_room hroom, filter_append, filter_append, hnot, append_nil, ← filter_append]
  exact hset.requested

theorem Sound.push {replaying : List CacheInvalidationFrame}
    (hroom : s.queue.length ≠ max config.inboundCapacity 1)
    (hrepl : s.replaying = frame :: replaying) :
    Sound config { s with
      queue := pushDropOldest config.inboundCapacity s.queue frame, replaying } := by
  obtain ⟨history, hpub⟩ := h.published
  obtain ⟨settled, hset⟩ := h.settled
  refine
    { h with
      published := ⟨history, { hpub with }⟩, settled := ⟨settled, { hset with requested := ?_ }⟩ }
  rw [pushDropOldest_of_room hroom, append_assoc, singleton_append, ← hrepl]
  exact hset.requested

theorem Sound.apply (hplain : Plain config s.ring.partition) (hqueue : s.queue = frame :: queue) :
    Sound config (afterApply config s frame queue) := by
  obtain ⟨history, hpub⟩ := h.published
  obtain ⟨settled, hset⟩ := h.settled
  have hcap := (InboundApplyState.takesIn_shouldDrop s.apply frame config).capacity
  refine ⟨⟨history, { hpub with }⟩, ?_, h.ordered, h.once, hcap.trans h.capacity⟩
  cases hframe : isResume s.ring.partition frame with
  | true => exact ⟨_, h.settled_afterApply hplain hset hqueue hframe⟩
  | false => exact ⟨_, hset.afterApply_of_not hqueue hframe⟩

end

/-- What a replay asks for: all events after the last seen, or one flush. -/
theorem replayFrames_cases (ring : InvalidationRing) (lastSeen : ℕ) :
    (ring.replayFrom lastSeen = .fellBehind ring.partition ∧
      replayFrames ring lastSeen = [clearPartitionFrame ring.partition lastSeen]) ∨
    ∃ events, ring.replayFrom lastSeen = .range events ∧
      replayFrames ring lastSeen = events.map frameFromReplayEvent ∧
      events ⊆ ring.events ∧ ∀ event ∈ ring.events, lastSeen < event.sequence → event ∈ events := by
  unfold replayFrames InvalidationRing.replayFrom
  split_ifs with hempty
  · refine .inr ⟨[], rfl, rfl, nil_subset _, fun event hevent ↦ ?_⟩
    simp [isEmpty_iff.mp hempty] at hevent
  · exact .inl ⟨rfl, rfl⟩
  · refine .inr ⟨_, rfl, rfl, filter_subset_self _, fun event hevent hlt ↦ ?_⟩
    exact mem_filter.mpr ⟨hevent, decide_eq_true hlt⟩

theorem Sound.resume {lastSeen : ℕ} (h : Sound config s) (hreplaying : s.replaying = [])
    (hrepl : Replayable config s (.resume lastSeen)) :
    Sound config { s with
      replaying := replayFrames s.ring lastSeen
      requested := s.requested ++ replayFrames s.ring lastSeen } := by
  obtain ⟨history, hpub⟩ := h.published
  obtain ⟨settled, hset⟩ := h.settled
  have hknown : ∀ frame ∈ replayFrames s.ring lastSeen,
      (∃ event ∈ history, frame = frameFromReplayEvent event) ∨
        ∃ lastSeen, frame = clearPartitionFrame s.ring.partition lastSeen := by
    intro frame hframe
    rcases replayFrames_cases s.ring lastSeen with ⟨-, hfrms⟩ | ⟨events, -, hfrms, hkept, -⟩
    · exact .inr ⟨lastSeen, mem_singleton.mp (hfrms ▸ hframe)⟩
    · obtain ⟨event, hevent, rfl⟩ := mem_map.mp (hfrms ▸ hframe)
      exact .inl ⟨event, hpub.retained event (hkept hevent), rfl⟩
  refine ⟨⟨history, { hpub with frames := fun frame hframe ↦ ?_ }⟩,
    ⟨settled, { hset with requested := ?_ }⟩, h.ordered.append hrepl.1, ?_, h.capacity⟩
  · rcases mem_append.mp hframe with hpre | hnow
    · exact hpub.frames frame hpre
    · exact hknown frame hnow
  · have hall : (replayFrames s.ring lastSeen).filter (isResume s.ring.partition) =
        replayFrames s.ring lastSeen := by
      refine filter_eq_self.mpr fun frame hframe ↦ ?_
      rcases hknown frame hframe with ⟨event, -, rfl⟩ | ⟨lastSeen, rfl⟩
      · simp [isResume, frameFromReplayEvent]
      · simp [isResume, clearPartitionFrame]
    have hreq := hset.requested
    rw [hreplaying, append_nil] at hreq
    rw [filter_append, hall, ← append_assoc, ← hreq]
  · rcases h.once with hzero | honce
    · exact .inl hzero
    · refine hrepl.2.imp_right fun hnew other ↦ ?_
      rw [count_append]
      rcases replayFrames_cases s.ring lastSeen with ⟨hbeh, hfrms⟩ | ⟨events, -, hfrms, -⟩
      · rw [hfrms]
        by_cases heq : clearPartitionFrame s.ring.partition lastSeen =
            clearPartitionFrame s.ring.partition other
        · have hnot := hnew.resolve_right fun hne ↦ hne hbeh
          rw [← heq, count_eq_zero_of_not_mem hnot, count_singleton_self]
        · rw [count_eq_zero_of_not_mem fun hmem ↦ heq (mem_singleton.mp hmem).symm]
          exact honce other
      · have hnone : clearPartitionFrame s.ring.partition other ∉ replayFrames s.ring lastSeen := by
          rw [hfrms]
          intro hmem
          obtain ⟨event, -, heq⟩ := mem_map.mp hmem
          exact clearSource_ne_resumeSource _ (congrArg CacheInvalidationFrame.sourceId heq).symm
        rw [count_eq_zero_of_not_mem hnone]
        exact honce other

/-- A step also keeps the partition of the ring, and takes no request back. -/
theorem sound_of_step (hplain : Plain config s.ring.partition) (h : Sound config s)
    (hroom : Room config s event) (hrepl : Replayable config s event)
    (hstep : step config s event = some s') :
    Sound config s' ∧ s'.ring.partition = s.ring.partition ∧ s.requested <+: s'.requested := by
  cases event with
  | publish invalidation generation =>
    dsimp only [step] at hstep
    split_ifs at hstep
    cases hstep
    exact ⟨h.publish invalidation generation hrepl, rfl, prefix_refl _⟩
  | receive =>
    cases hstep
    exact ⟨h.receive hroom hrepl, rfl, prefix_refl _⟩
  | resume =>
    dsimp only [step] at hstep
    split_ifs at hstep with hempty
    cases hstep
    exact ⟨h.resume (isEmpty_iff.mp hempty) hrepl, rfl, prefix_append _ _⟩
  | push =>
    dsimp only [step] at hstep
    split at hstep
    · cases hstep
    · rename_i frame replaying hreplaying
      cases hstep
      exact ⟨h.push hroom hreplaying, rfl, prefix_refl _⟩
  | apply =>
    dsimp only [step] at hstep
    split at hstep
    · cases hstep
    · rename_i frame queue hqueue
      cases hstep
      exact ⟨h.apply hplain hqueue, rfl, prefix_refl _⟩

/-! ### Requests are served -/

theorem sound_new (config : TransportConfig) (partition capacity : ℕ) :
    Sound config (new config partition capacity) where
  published := ⟨[], .nil, nofun, nofun, nofun⟩
  settled := ⟨[], rfl, nofun, fun _ ↦ rfl, nofun, fun key h ↦ absurd h (Finset.notMem_empty key)⟩
  ordered before frame after h := by
    exact absurd h.symm (append_ne_nil_of_right_ne_nil before (cons_ne_nil frame after))
  once := .inr fun _ ↦ Nat.zero_le 1
  capacity := rfl

theorem sound_of_run {partition : ℕ} {events : List RelayEvent} (hplain : Plain config partition)
    (hpart : s.ring.partition = partition) (h : Sound config s)
    (halong : Along (step config) (fun s event ↦ Room config s event ∧
      Replayable config s event) s events) (hrun : run (step config) s events = some s') :
    Sound config s' ∧ s'.ring.partition = partition ∧ s.requested <+: s'.requested := by
  refine run_invariant (I := fun found ↦ Sound config found ∧ found.ring.partition = partition ∧
    s.requested <+: found.requested) ?_ ⟨h, hpart, prefix_refl _⟩ halong hrun
  rintro t event t' ⟨hroom, hrepl⟩ ⟨hsound, hpart, hprefix⟩ hstep
  obtain ⟨hsound', hpartition', hprefix'⟩ := sound_of_step (hpart ▸ hplain) hsound hroom hrepl hstep
  exact ⟨hsound', hpartition'.trans hpart, hprefix.trans hprefix'⟩

/-- What a replay calls for, in a later state: every event of the ring after the last seen has been
applied, or a flush was applied since if some of them are lost. -/
def Answers (lastSeen : ℕ) (asked s : Relay) : ReplayResult → Prop
  | .range _ => ∀ event ∈ asked.ring.events, lastSeen < event.sequence →
    frameFromReplayEvent event ∈ s.applied
  | .fellBehind partition => asked.applied.count (clearPartitionFrame partition lastSeen) <
    s.applied.count (clearPartitionFrame partition lastSeen)

instance Answers.decidable (lastSeen : ℕ) (asked s : Relay) :
    ∀ replay, Decidable (Answers lastSeen asked s replay)
  | .range _ => inferInstanceAs (Decidable (∀ event ∈ _, _ < _ → _ ∈ _))
  | .fellBehind _ => inferInstanceAs (Decidable (_ < _))

/-- The request made in one state is served in a later one. -/
def Served (lastSeen : ℕ) (asked s : Relay) : Prop :=
  Answers lastSeen asked s (asked.ring.replayFrom lastSeen)

instance Served.decidable (lastSeen : ℕ) (asked s : Relay) : Decidable (Served lastSeen asked s) :=
  inferInstanceAs (Decidable (Answers _ _ _ _))

/-- Assumes: a relay that is no source of the resume loop and sets no limit of rates, and a run in
which the inbound queue has room and every step is replayable. Once the queue is drained, every
request of the run is served. -/
theorem resume_applies {partition capacity lastSeen : ℕ} {before after : List RelayEvent}
    {asked : Relay} (hplain : Plain config partition)
    (hbefore : run (step config) (new config partition capacity) before = some asked)
    (hafter : run (step config) asked (.resume lastSeen :: after) = some s)
    (hroom : Along (step config) (Room config) (new config partition capacity)
      (before ++ .resume lastSeen :: after))
    (hreplayable : Along (step config) (Replayable config) (new config partition capacity)
      (before ++ .resume lastSeen :: after)) (hdrained : s.queue = [] ∧ s.replaying = []) :
    Served lastSeen asked s := by
  obtain ⟨halong, hlater⟩ := along_append_iff.mp (hroom.and hreplayable)
  have hlater := hlater asked hbefore
  obtain ⟨hsound, hpart, -⟩ := sound_of_run hplain rfl (sound_new ..) halong hbefore
  obtain ⟨hsound', hpartition', -⟩ := sound_of_run hplain hpart hsound hlater hafter
  have hreq : asked.requested ++ replayFrames asked.ring lastSeen <+: s.requested := by
    obtain ⟨resumed, hstep, hrest⟩ := run_cons_eq_some.mp hafter
    obtain ⟨hresumed, hkept, -⟩ := sound_of_step (hpart ▸ hplain) hsound hlater.1.1 hlater.1.2 hstep
    have hprefix :=
      (sound_of_run hplain (hkept.trans hpart) hresumed (hlater.2 resumed hstep) hrest).2.2
    dsimp only [step] at hstep
    split_ifs at hstep
    cases hstep
    exact hprefix
  -- The queue is drained, so whatever was asked for has been taken in.
  obtain ⟨settled, hset⟩ := hsound'.settled
  have hall := hset.requested
  rw [hdrained.1, hdrained.2, append_nil, filter_nil, append_nil] at hall
  rw [hall] at hreq
  unfold Served
  rcases replayFrames_cases asked.ring lastSeen with
    ⟨hreplay, hfrms⟩ | ⟨events, hreplay, hfrms, -, hevents⟩
  · rw [hreplay, hpart]
    rw [hfrms, hpart] at hreq
    obtain ⟨settledBefore, hbefore⟩ := hsound.settled
    calc asked.applied.count (clearPartitionFrame partition lastSeen)
        = settledBefore.count (clearPartitionFrame partition lastSeen) := hpart ▸ hbefore.cleared ..
      _ ≤ asked.requested.count (clearPartitionFrame partition lastSeen) := by
        rw [hbefore.requested, count_append]
        exact Nat.le_add_right _ _
      _ < (asked.requested ++ [clearPartitionFrame partition lastSeen]).count
          (clearPartitionFrame partition lastSeen) := by
        rw [count_append, count_singleton_self]
        exact Nat.lt_succ_self _
      _ ≤ settled.count (clearPartitionFrame partition lastSeen) := hreq.sublist.count_le _
      _ = s.applied.count (clearPartitionFrame partition lastSeen) :=
        (hpartition' ▸ hset.cleared ..).symm
  · rw [hreplay]
    intro event hevent hlt
    refine hset.applied _ (hreq.subset (mem_append.mpr (.inr ?_)))
    rw [hfrms]
    exact mem_map_of_mem (hevents event hevent hlt)

/-- Three invalidations, the second by a source in its second generation. -/
def twoSources (last : ℕ) : List RelayEvent :=
  [.publish (.key "order:1") (some 1), .publish (.key "order:2") (some 2),
    .publish (.key "order:3") (some last)]

/-- A replay of two events, and a second one before the first was taken in. -/
def twoReplays : List RelayEvent :=
  [.push, .push, .resume 1, .push, .apply, .apply, .apply]

theorem resume_applies_twoReplays :
    ∃ asked s, run (step {}) (new {} 0 8) (twoSources 2) = some asked ∧
      run (step {}) asked (.resume 0 :: twoReplays) = some s ∧ Served 0 asked s := by
  obtain ⟨asked, hpre, s, hafter, hdrain⟩ : ∃ asked ∈ run (step {}) (new {} 0 8) (twoSources 2),
      ∃ s ∈ run (step {}) asked (.resume 0 :: twoReplays), s.queue = [] ∧ s.replaying = [] := by
    decide +kernel
  exact ⟨asked, s, hpre, hafter, resume_applies ⟨by decide, by decide +kernel, rfl⟩ hpre hafter
    (by decide +kernel) (by decide +kernel) hdrain⟩

/-- A source in its first generation is fenced by another in its second; and the second flush for
one last seen sequence is taken for the first. -/
theorem replay_discarded :
    ((run (step {}) (new {} 0 8) (twoSources 1)).bind fun asked ↦
      (run (step {}) asked (.resume 0 :: twoReplays)).map fun s ↦
        (s.queue, s.replaying, s.applied.map (·.messageId), decide (Served 0 asked s))) =
      some ([], [], [some 1], false) ∧
    ((run (step {}) (new {} 0 1) (twoSources 2 ++ [.resume 0, .push, .apply])).bind fun asked ↦
      (run (step {}) asked [.resume 0, .push, .apply]).map fun s ↦
        (s.queue, s.replaying, s.applied.length, decide (Served 0 asked s))) =
      some ([], [], 1, false) := by
  decide +kernel

end Relay

end HydraCache.Transport
