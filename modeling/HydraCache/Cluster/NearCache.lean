import HydraCache.Lib.Word
import Mathlib.Data.List.Basic
import Mathlib.Data.List.Induction

/-!
# Watermarks of near caches

A near cache follows the invalidations of a partition by generation and sequence number, and answers
each frame with what has to be done for the frames that it missed. `numbers_repaired` says that no
number is passed over without an answer that repairs it, and that the tracker of the remote cache
answers as that of the embedded one.
-/

set_option autoImplicit false

namespace HydraCache.Cluster

open Lib List

inductive NearCacheRepairAction where
  | apply
  | clearPartition
  | invalidateConservatively
deriving DecidableEq

structure Watermark where
  sourceGeneration : ℕ
  messageId : ℕ

/-- The number is a word. -/
structure WatermarkFrame where
  generation : Option ℕ
  messageId : Option ℕ
  word : messageId.getD 0 ≤ maxWord

def WatermarkFrame.uuid (frame : WatermarkFrame) : ℕ := frame.generation.getD 0

def WatermarkFrame.seq (frame : WatermarkFrame) : ℕ := frame.messageId.getD 0

structure MetaDataContainer where
  lastUuid : Option ℕ := none
  lastSeq : ℕ := 0

def MetaDataContainer.onWatermark (tracker : MetaDataContainer) (frame : WatermarkFrame) :
    NearCacheRepairAction × MetaDataContainer :=
  if tracker.lastUuid ≠ some frame.uuid then (.clearPartition, ⟨some frame.uuid, frame.seq⟩)
  else if saturatingSucc tracker.lastSeq < frame.seq then
    (.invalidateConservatively, { tracker with lastSeq := frame.seq })
  else (.apply, { tracker with lastSeq := max tracker.lastSeq frame.seq })

structure SubscriptionWatermarkTracker where
  last : Option Watermark := none

def SubscriptionWatermarkTracker.onEvent (tracker : SubscriptionWatermarkTracker)
    (next : Watermark) :
    NearCacheRepairAction × SubscriptionWatermarkTracker :=
  match tracker.last with
  | none => (.clearPartition, ⟨next⟩)
  | some last =>
    if next.sourceGeneration ≠ last.sourceGeneration then (.clearPartition, ⟨next⟩)
    else if saturatingSucc last.messageId < next.messageId then (.invalidateConservatively, ⟨next⟩)
    else (.apply, ⟨some ⟨last.sourceGeneration, max last.messageId next.messageId⟩⟩)

namespace MetaDataContainer

/-- What the remote tracker has where the embedded one has this. -/
def remote (tracker : MetaDataContainer) : SubscriptionWatermarkTracker :=
  ⟨tracker.lastUuid.map (⟨·, tracker.lastSeq⟩)⟩

variable {tracker : MetaDataContainer} {first frame : WatermarkFrame}
  {rest : List (WatermarkFrame × NearCacheRepairAction)}

theorem onEvent_remote (tracker : MetaDataContainer) (frame : WatermarkFrame) :
    tracker.remote.onEvent ⟨frame.uuid, frame.seq⟩ =
      ((tracker.onWatermark frame).1, (tracker.onWatermark frame).2.remote) := by
  unfold onWatermark SubscriptionWatermarkTracker.onEvent remote
  cases tracker.lastUuid with
  | none => rfl
  | some last =>
    by_cases hsame : last = frame.uuid
    · subst hsame
      simp only [Option.map_some, ne_eq, not_true_eq_false, if_false]
      split_ifs <;> rfl
    · simp [hsame, Ne.symm hsame]

/-- The tracker with the frames since it cleared the partition, all of one generation, and how it
answered them. Each number from the first to the last was delivered, or an invalidation was the
answer to a frame that passed it. -/
structure Repaired (tracker : MetaDataContainer) (first : WatermarkFrame)
    (rest : List (WatermarkFrame × NearCacheRepairAction)) : Prop where
  current : tracker.lastUuid = some first.uuid ∧
    ∀ answer ∈ rest, answer.1.uuid = first.uuid ∧ answer.2 ≠ .clearPartition
  word : tracker.lastSeq ≤ maxWord
  numbers : ∀ number, first.seq ≤ number → number ≤ tracker.lastSeq → first.seq = number ∨
    ∃ answer ∈ rest, answer.1.seq = number ∨
      answer.2 = .invalidateConservatively ∧ number < answer.1.seq

/-- A frame of the current generation. -/
theorem onWatermark_of_eq (hword : tracker.lastSeq ≤ maxWord)
    (hsame : tracker.lastUuid = some frame.uuid) :
    ∃ action, tracker.onWatermark frame =
      (action, { tracker with lastSeq := max tracker.lastSeq frame.seq }) ∧
      action ≠ .clearPartition ∧
      (tracker.lastSeq + 1 < frame.seq → action = .invalidateConservatively) := by
  rw [onWatermark, if_neg (not_not.mpr hsame)]
  split_ifs with hgap
  · rw [max_eq_right ((le_saturatingSucc hword).trans hgap.le)]
    exact ⟨_, rfl, nofun, fun _ ↦ rfl⟩
  · exact ⟨_, rfl, nofun, fun hskip ↦ absurd ((saturatingSucc_le _).trans_lt hskip) hgap⟩

theorem Repaired.append {action : NearCacheRepairAction} (h : tracker.Repaired first rest)
    (hsame : tracker.lastUuid = some frame.uuid) (hclear : action ≠ .clearPartition)
    (hgap : tracker.lastSeq + 1 < frame.seq → action = .invalidateConservatively) :
    Repaired { tracker with lastSeq := max tracker.lastSeq frame.seq } first
      (rest ++ [(frame, action)]) := by
  refine ⟨⟨h.current.1, ?_⟩, max_le h.word frame.word, fun number hfrom hto ↦ ?_⟩
  · rw [forall_mem_append, forall_mem_singleton]
    exact ⟨h.current.2, Option.some.inj (hsame.symm.trans h.current.1), hclear⟩
  simp only [mem_append, mem_singleton, or_and_right, exists_or, exists_eq_left]
  by_cases hpassed : number ≤ tracker.lastSeq
  · exact (h.numbers number hfrom hpassed).imp_right .inl
  · have hle : number ≤ frame.seq := (le_max_iff.mp hto).resolve_left hpassed
    refine .inr (.inr (hle.eq_or_lt.imp Eq.symm fun hskip ↦ ⟨hgap ?_, hskip⟩))
    omega

/-- A tracker after the frames, and how it answered them. -/
def follow {σ : Type} (answer : σ → WatermarkFrame → NearCacheRepairAction × σ) (start : σ)
    (frames : List WatermarkFrame) : σ × List (WatermarkFrame × NearCacheRepairAction) :=
  frames.foldl (fun s frame ↦ ((answer s.1 frame).2, s.2 ++ [(frame, (answer s.1 frame).1)]))
    (start, [])

/-- Whatever frames come, in any order: the numbers since the generation of the tracker became
current are repaired. The remote tracker has the same and answers alike. -/
theorem numbers_repaired (frames : List WatermarkFrame) :
    let embedded := follow onWatermark {} frames
    (embedded.1.lastUuid ≠ none → ∃ before first rest,
      embedded.2 = before ++ (first, .clearPartition) :: rest ∧ embedded.1.Repaired first rest) ∧
    follow (fun tracker frame ↦ tracker.onEvent ⟨frame.uuid, frame.seq⟩) {} frames =
      (embedded.1.remote, embedded.2) := by
  induction frames using reverseRecOn with
  | nil => exact ⟨fun h ↦ absurd rfl h, rfl⟩
  | append_singleton frames frame ih =>
    unfold follow at ih ⊢
    dsimp only at ih ⊢
    rw [foldl_concat, foldl_concat]
    generalize frames.foldl _ (({} : MetaDataContainer), []) = s at ih ⊢
    obtain ⟨hrep, hremote⟩ := ih
    rw [hremote]
    dsimp only
    rw [onEvent_remote]
    refine ⟨fun _ ↦ ?_, rfl⟩
    by_cases hsame : s.1.lastUuid = some frame.uuid
    · obtain ⟨before, first, rest, hsplit, h⟩ := hrep (by simp [hsame])
      obtain ⟨action, hstep, hclear, hgap⟩ := onWatermark_of_eq h.word hsame
      rw [hstep]
      exact ⟨before, first, rest ++ [(frame, action)], by simp [hsplit], h.append hsame hclear hgap⟩
    · rw [onWatermark, if_pos hsame]
      refine ⟨s.2, frame, [], rfl, ⟨rfl, nofun⟩, frame.word, ?_⟩
      exact fun number hfrom hto ↦ .inl (hfrom.antisymm hto)

end MetaDataContainer

end HydraCache.Cluster
