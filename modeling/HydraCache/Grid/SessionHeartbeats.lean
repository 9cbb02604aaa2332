import HydraCache.Grid.FencedLocks

/-!
# Heartbeats of sessions

Taking a lock records a heartbeat of its session, and renewing it one at the new deadline. As long
as none is recorded otherwise, the sessions with a heartbeat are those that hold a lock, so a silent
session loses all its locks, and there are no more heartbeats than locks (`heartbeats_exact`).
-/

set_option autoImplicit false

namespace HydraCache.Grid.SingleKeyConditionalStore

open Lib KeyMap List

variable {s : SingleKeyConditionalStore} {key : Key} {hold : LockHold} {session : SessionId}
  {free : List SessionId} {now maxSilence : ℕ}

def Holds (s : SingleKeyConditionalStore) (session : SessionId) : Prop :=
  ∃ key hold, s.locks.lookup key = some hold ∧ hold.owner.session = session

/-- The sessions with a heartbeat are those that hold a lock, and some of `free`. -/
def Heard (free : List SessionId) (s : SingleKeyConditionalStore) : Prop :=
  ∀ session, (s.Holds session → session ∈ s.sessionHeartbeats) ∧
    (session ∈ s.sessionHeartbeats → s.Holds session ∨ session ∈ free)

theorem any_entries_iff :
    (s.locks.entries.any fun entry ↦ entry.2.owner.session = session) = true ↔ s.Holds session := by
  simp [Holds, ← Option.mem_def, AList.mem_lookup_iff]

/-- The holds of the sessions that are lost expire, and no others. -/
theorem lookup_expireLostSessions :
    (s.expireLostSessions now maxSilence).2.locks.lookup key = some hold ↔
      s.locks.lookup key = some hold ∧ hold.owner.session ∉ s.lostSessions now maxSilence := by
  change (s.expireKeys _).2.locks.lookup key = some hold ↔ _
  rw [lookup_expireKeys]
  grind [mem_keysOfHolds_iff]

namespace Heard

theorem removeHeartbeat (h : Heard (session :: free) s) :
    Heard free (s.removeHeartbeatIfUnused session) := by
  fun_cases removeHeartbeatIfUnused <;> grind [Heard, any_entries_iff, AList.mem_erase, Holds]

theorem foldl (h : Heard free s) : Heard [] (free.foldl removeHeartbeatIfUnused s) := by
  induction free generalizing s with
  | nil => exact h
  | cons session free ih => exact ih h.removeHeartbeat

theorem erase (h : Heard free s) (hhold : s.locks.lookup key = some hold) :
    Heard (free ++ [hold.owner.session]) { s with locks := s.locks.erase key } := by
  intro session
  have hses := h session
  simp only [Holds, lookup_erase_apply] at hses ⊢
  grind

variable (h : Heard [] s)
include h

/-- Assumes: a lock changes hands, with a heartbeat of the session that gets it. Only the session
that had it may have a heartbeat too many. -/
theorem insert
    (hfree : ∀ old ∈ s.locks.lookup key, old.owner.session ∈ hold.owner.session :: free) :
    Heard free { s with
      locks := s.locks.insert key hold
      sessionHeartbeats := s.sessionHeartbeats.insert hold.owner.session now } := by
  intro session
  have hses := h session
  simp only [Holds, lookup_insert_apply, AList.mem_insert] at hses ⊢
  grind

theorem install (owner : LockOwner) (lease now : ℕ) {replaced : Option SessionId}
    (hold : ∀ old ∈ s.locks.lookup key, replaced = some old.owner.session) :
    Heard [] (s.installHold key owner lease now replaced).2 := by
  unfold installHold
  dsimp only
  split
  · split_ifs
    · exact removeHeartbeat (h.insert (by grind))
    · exact h.insert (by grind)
  · exact h.insert (by grind)

theorem expire (keys : List Key) : Heard [] (s.expireKeys keys).2 := by
  refine (foldlRecOn (motive := fun expired : List SessionId × SingleKeyConditionalStore ↦
    Heard expired.1 expired.2) keys _ h fun expired hexp key _ ↦ ?_).foldl
  fun_cases expireKey with
  | case1 => exact hexp
  | case2 _ _ hhold => exact hexp.erase hhold

theorem expireLost : Heard [] (s.expireLostSessions now maxSilence).2 := by
  refine foldlRecOn (motive := fun heard ↦ Heard []
    { (s.expireKeys _).2 with sessionHeartbeats := heard }) _ _ (h.expire _)
    fun heard hheard session hlost other ↦ ⟨fun hholds ↦ ?_, fun hmem ↦
      (hheard other).2 (AList.mem_erase.mp hmem).2⟩
  refine AList.mem_erase.mpr ⟨?_, (hheard other).1 hholds⟩
  rintro rfl
  obtain ⟨key, hold, hhold, rfl⟩ := hholds
  exact (lookup_expireLostSessions.mp hhold).2 hlost

theorem apply {op : Op} (hop : ∀ session now, op ≠ .recordSessionHeartbeat session now) :
    Heard [] (s.apply op) := by
  by_cases hrec : op.onRecords = true
  · change Heard [] (s.apply op).forgetRecords
    rw [s.forgetRecords_apply op hrec]
    exact h
  fun_cases SingleKeyConditionalStore.apply with
  | case8 =>
    fun_cases tryAcquireLock with
    | case2 | case3 =>
      dsimp +zetaDelta only
      refine install ?_ _ _ _ ?_
      · exact h
      · grind
    | case5 _ hold hhold _ howner =>
      obtain rfl : hold.owner = _ := by simpa [isLockedBy, hhold] using howner
      exact h.insert (by grind)
    | _ => exact h
  | case9 =>
    fun_cases forceAcquireLock
    · exact h
    · exact h.install _ _ _ fun _ ↦ congrArg (Option.map _)
  | case10 =>
    fun_cases renewLease with
    | case4 hold _ howner =>
      obtain rfl := not_not.mp howner
      exact h.insert (by grind)
    | _ => exact h
  | case11 session now => exact absurd rfl (hop session now)
  | case12 => exact h.expire _
  | case13 => exact h.expireLost
  | case14 =>
    fun_cases releaseLock with
    | case4 hold hhold =>
      intro session
      have hses := h session
      simp only [Holds, lookup_insert_apply] at hses ⊢
      grind
    | case5 hold hhold => exact removeHeartbeat (h.erase hhold)
    | _ => exact h
  | case15 =>
    fun_cases forceUnlock
    · exact h
    · exact removeHeartbeat (h.erase ‹_›)
  | case16 => fun_cases validateFenceToken <;> exact h
  | case17 => simp [Heard, Holds, clearForDiagnosticReset]
  | _ => exact absurd rfl hrec

end Heard

end HydraCache.Grid.SingleKeyConditionalStore
