import HydraCache.Hc2.Runtime

/-!
# Owners of permits

A permit that is taken should belong to a caller in its call or to a handle that the caller holds,
and a session should be kept alive for a handle only (`Owned`). There is a schedule that breaks this
for good: the reader answers a call with a new session, and the caller is dropped before it picks
the answer up (`session_leaks_with_caller`). Its guard finds nothing to cancel any more, the answer
is lost with its channel, and the session stays with its permit and its heartbeats.

In a run in which no caller leaves between the acknowledgement of its call and the pick-up, every
permit is owned at any time (`owned_of_keepsAcknowledged`). A reader that is stuck keeps the permit
of a session that was refused; its caller waits for the lock of the reader.
-/

set_option autoImplicit false

namespace HydraCache.Hc2

open Lib

namespace Runtime

variable {s s' : Runtime} {c : ℕ}

/-- The permit of the call is taken: it is in the call itself, in a table or in the hands of the
reader. -/
def HasPermit (s : Runtime) (c : ℕ) : Prop :=
  (s.calls c).stage = .entered ∨ s.pending c = true ∨ s.reader = .taken c ∨ s.reader = .stuck c ∨
    s.subscriptions c = true ∨ ∃ id, s.sessions id = some c

/-- Every permit that is taken belongs to a caller in its call or to a handle that is held, and so
does every session that is kept alive. -/
def Owned (s : Runtime) : Prop :=
  (∀ c, s.HasPermit c →
      (s.calls c).stage.waits = true ∨ ∃ session, (s.calls c).stage = .holding session) ∧
    ∀ id c, s.sessions id = some c →
      (s.calls c).stage.waits = true ∨ (s.calls c).stage = .holding (some id)

/-- The acknowledgement of the call is on its way to the caller, in the hands of the reader or in
the channel. -/
def acknowledged (s : Runtime) (c : ℕ) : Bool :=
  s.reader.call == some c || (s.calls c).reply.any Answer.acknowledges

/-- The call whose caller leaves without having picked an answer up. -/
def leaving (s : Runtime) : Label → Option ℕ
  | .cancel c => some c
  -- the runtime is found closed
  | .send c => if s.closed then some c else none
  | _ => none

/-- No caller leaves its call while an acknowledgement is on its way. -/
def KeepsAcknowledged (s : Runtime) (label : Label) : Prop :=
  ∀ c ∈ s.leaving label, s.acknowledged c = false

instance (s : Runtime) (label : Label) : Decidable (s.KeepsAcknowledged label) :=
  inferInstanceAs (Decidable (∀ c ∈ _, _ = false))

/-! ### The invariant -/

/-- Where the permit of a call can be, and what the caller and its channel are like then. -/
structure Kept (s : Runtime) (c : ℕ) : Prop where
  fresh : (s.calls c).stage = .idle ∨ (s.calls c).stage = .entered → (s.calls c).reply = none
  pending : s.pending c = true →
    (s.calls c).stage.waits = true ∧ (s.calls c).stage ≠ .entered ∧ (s.calls c).reply = none
  taken : s.reader = .taken c → (s.calls c).stage.waits = true ∧ (s.calls c).stage ≠ .entered ∧
    (s.calls c).reply = none ∧ s.pending c = false
  closing : s.reader ≠ .closing c
  stuck : s.reader = .stuck c →
    (s.calls c).kind = .session ∧ (s.calls c).stage.waits = true ∧ (s.calls c).reply = some .failed
  subscriptions : s.subscriptions c = true → (s.calls c).stage = .holding none ∨
    (s.calls c).stage.waits = true ∧ (s.calls c).reply = some .subscribed
  sessions : ∀ id, s.sessions id = some c → (s.calls c).stage = .holding (some id) ∨
    (s.calls c).stage.waits = true ∧ (s.calls c).reply = some (.opened id)

theorem Kept.of_untouched (h : s.Kept c) (hsame : Untouched s s' c) : s'.Kept c := by
  obtain ⟨hcalls, hpend, htaken, hclose, hstuck, hsubs, hsess, -⟩ := hsame
  constructor
  · simpa only [hcalls] using h.fresh
  · simpa only [hcalls, hpend] using h.pending
  · simpa only [hcalls, hpend, htaken] using h.taken
  · exact mt hclose h.closing
  · simpa only [hcalls] using h.stuck ∘ hstuck
  · simpa only [hcalls, hsubs] using h.subscriptions
  · rw [hcalls]
    exact fun id hid ↦ h.sessions id (hsess id hid)

theorem kept_drainTable (h : s.Kept c) (table : Table) : (s.drainTable table).Kept c := by
  cases table with
  | pending kind =>
    by_cases hdrain : s.pending c = true ∧ (s.calls c).kind = kind
    · obtain ⟨_, _, _⟩ := h.pending hdrain.1
      cases h
      constructor <;> simp [drainTable, hdrain] <;> grind [Stage.waits]
    · cases h
      constructor <;> simp [drainTable, hdrain] <;> grind
  | subscriptions => exact { h with subscriptions := nofun }
  | sessions => exact { h with sessions := nofun }

/-- Assumes: a caller in its call, and no acknowledgement on its way to it. -/
theorem kept_cancelPending (h : s.Kept c) (hlock : s.locked c = false)
    (hack : s.acknowledged c = false) (hwaits : (s.calls c).stage.waits = true) :
    (s.cancelPending c).Kept c := by
  unfold acknowledged at hack
  cases h
  constructor <;> simp [cancelPending] <;>
    grind [Stage.waits, locked, Reader.isStuck, Reader.call, Answer.acknowledges]

theorem kept_acceptAnswer {kind : CallKind} {answer : Answer} (h : s.Kept c)
    (hidle : s.reader = .idle) (hpend : s.pending c = true) (hkind : (s.calls c).kind = kind)
    (hstep : s.acceptAnswer c kind answer = some s') : s'.Kept c := by
  cases h
  revert hstep
  fun_cases acceptAnswer <;> rintro ⟨⟩ <;> constructor <;> simp [Function.update_apply] <;>
    grind [Stage.waits]

/-- A step about the call. -/
theorem kept_of_callOf {label : Label} (hC : s.KeepsAcknowledged label) (h : s.Kept c)
    (hc : s.callOf label = some c) (hstep : s.step label = some s') : s'.Kept c := by
  revert hC hc hstep
  fun_cases step <;> intro hC hc hstep <;> try cases hstep
  case case19 hreader _ | case20 hreader _ | case22 hreader =>
    rw [callOf, hreader] at hc
    cases hc
    cases h
    constructor <;> simp <;> grind -linarith [Stage.waits]
  all_goals cases hc
  case case5 hclosed hsent =>
    exact kept_cancelPending h hsent.2 (hC c (by simp [leaving, hclosed])) (by rw [hsent.1]; rfl)
  case case8 hwaits => exact kept_cancelPending h hwaits.2 (hC c rfl) hwaits.1
  case case17 hready => exact kept_acceptAnswer h hready.1 hready.2 rfl hstep
  case case11 answer _ _ _ =>
    cases h
    cases answer <;> constructor <;> simp [pickedUp] <;>
      grind -linarith [Stage.waits, locked, Reader.isStuck]
  all_goals
    cases h
    constructor <;> simp [Function.update_apply] <;>
      grind -linarith [Stage.waits, locked, Reader.isStuck]

theorem kept_step {label : Label} (hC : s.KeepsAcknowledged label) (hkept : ∀ c, s.Kept c)
    (hstep : s.step label = some s') (c : ℕ) : s'.Kept c := by
  by_cases hdrain : label = .drain
  · subst hdrain
    simp only [step] at hstep
    split at hstep
    · cases hstep
    · split_ifs at hstep
      cases hstep
      exact { kept_drainTable (hkept c) _ with }
  by_cases hc : s.callOf label = some c
  · exact kept_of_callOf hC (hkept c) hc hstep
  · exact (hkept c).of_untouched (untouched_of_step hstep hc hdrain)

/-! ### Every run -/

theorem owned_of_kept (h : ∀ c, s.Kept c) : s.Owned := by
  refine ⟨fun c hpermit ↦ ?_, fun id c hsess ↦ ?_⟩
  · rcases hpermit with hentered | hpend | htaken | hstuck | hsub | ⟨id, hsess⟩
    · exact .inl (by rw [hentered]; rfl)
    · exact .inl ((h c).pending hpend).1
    · exact .inl ((h c).taken htaken).1
    · exact .inl ((h c).stuck hstuck).2.1
    · exact ((h c).subscriptions hsub).elim (fun hheld ↦ .inr ⟨_, hheld⟩) fun h ↦ .inl h.1
    · exact ((h c).sessions id hsess).elim (fun hheld ↦ .inr ⟨_, hheld⟩) fun h ↦ .inl h.1
  · exact ((h c).sessions id hsess).elim .inr fun h ↦ .inl h.1

theorem not_owned_of_left (id : SessionId) (c : ℕ) (hsess : s.sessions id = some c)
    (hleft : (s.calls c).stage = .left) : ¬s.Owned := by
  intro howned
  have howner := howned.2 id c hsess
  simp [hleft, Stage.waits] at howner

/-- Assumes: a run from the start in which no caller leaves its call while an acknowledgement is on
its way. Every permit is owned where the run ends. -/
theorem owned_of_keepsAcknowledged (labels : List Label) {s : Runtime}
    (halong : Along step KeepsAcknowledged {} labels) (hrun : run step {} labels = some s) :
    s.Owned := by
  refine owned_of_kept (run_invariant (I := fun s ↦ ∀ c, s.Kept c) ?_ (fun c ↦ ?_) halong hrun)
  · exact fun s label s' hC hkept hstep c ↦ kept_step hC hkept hstep c
  · constructor <;> simp

/-- A session is opened and held. -/
def sessionLabels : List Label :=
  [.issue 0 .session, .insert 0, .send 0, .accept 0 (.opened [7]), .pickUp 0]

theorem owned_sessionLabels :
    Along step KeepsAcknowledged {} sessionLabels ∧ ∃ s, run step {} sessionLabels = some s ∧
      s.sessions [7] = some 0 ∧ (s.calls 0).stage = .holding (some [7]) ∧ s.Owned :=
  ⟨by decide, _, rfl, rfl, rfl, owned_of_keepsAcknowledged sessionLabels (by decide) rfl⟩

/-- The caller of a session is dropped when the session was opened and answered. -/
def leakLabels : List Label :=
  [.issue 0 .session, .insert 0, .send 0, .accept 0 (.opened [7]), .cancel 0]

theorem session_leaks_with_caller :
    ∃ s, run step {} leakLabels = some s ∧ s.reader = .idle ∧ s.draining = [] ∧
      s.sessions [7] = some 0 ∧ (s.calls 0).stage = .left ∧ ¬s.Owned :=
  ⟨_, rfl, rfl, rfl, rfl, rfl, not_owned_of_left [7] 0 rfl rfl⟩

end Runtime

end HydraCache.Hc2
