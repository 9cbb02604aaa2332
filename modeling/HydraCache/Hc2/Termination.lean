import HydraCache.Hc2.Runtime

/-!
# What `terminate` leaves

When `terminate` has returned, the reader is done with its message and no call is between its checks
(`Finished`), every call should have been answered once, every handle should be dead and every table
empty (`Ended`). The reader can break this: it takes a subscription out of its pending table,
`terminate` drains all tables, and the reader then puts the subscription in the table of active ones
(`subscription_survives_terminate`). It is found there ever after, and its stream does not end.

A run in which the reader enters a table of active ones only before `terminate` drains it does end
so (`ended_of_installsInTime`). The calls that enter a pending table after `terminate` drained it
take themselves out again, since they find the runtime closed when they send. A reader that refuses
a session while nobody else terminates is stuck for good (`stuck_of_run`).
-/

set_option autoImplicit false

namespace HydraCache.Hc2

open Lib

namespace Runtime

variable {s s' : Runtime} {c : ℕ}

/-- `terminate` has returned, and no message and no call is halfway. -/
structure Finished (s : Runtime) : Prop where
  closed : s.closed = true
  draining : s.draining = []
  reader : s.reader = .idle
  calls : ∀ c, (s.calls c).stage ≠ .entered ∧ (s.calls c).stage ≠ .inserted

/-- `fence` of a handle answers. -/
def hasFence (s : Runtime) (id : SessionId) : Bool := (s.sessions id).isSome

/-- The sender of the events of a subscription is kept. -/
def streams (s : Runtime) (c : ℕ) : Bool :=
  s.pending c || s.subscriptions c || s.reader.call == some c

structure Ended (s : Runtime) : Prop where
  answered : ∀ c, (s.calls c).stage = .sent → (s.calls c).answers = 1
  once : ∀ c, (s.calls c).answers ≤ 1
  fences : ∀ c id, (s.calls c).stage = .holding (some id) → s.hasFence id = false
  streams : ∀ c, s.streams c = false
  pending : ∀ c, s.pending c = false
  subscriptions : ∀ c, s.subscriptions c = false
  sessions : ∀ id, s.sessions id = none

/-- The table of active ones that the step enters. -/
def entering (s : Runtime) : Label → Option Table
  | .accept c (.opened _) => if (s.calls c).kind = .session then some .sessions else none
  | .install => some .subscriptions
  | _ => none

/-- The reader enters a table of active ones only if `terminate` has not drained it. -/
def InstallsInTime (s : Runtime) (label : Label) : Prop :=
  ∀ table ∈ s.entering label, ¬s.Drained table

instance (s : Runtime) (label : Label) : Decidable (s.InstallsInTime label) :=
  inferInstanceAs (Decidable (∀ table ∈ _, ¬_))

/-! ### The invariant -/

/-- Where a call is that waits for its answer, and what is left of it in the drained tables. -/
structure Accounted (s : Runtime) (c : ℕ) : Prop where
  fresh : (s.calls c).stage = .idle ∨ (s.calls c).stage = .entered →
    (s.calls c).reply = none ∧ s.pending c = false
  once : (s.calls c).answers = if (s.calls c).reply = none then 0 else 1
  pending : s.pending c = true → (s.calls c).stage.waits = true ∧ (s.calls c).reply = none
  taken : s.reader = .taken c → (s.calls c).stage ≠ .idle ∧ (s.calls c).stage ≠ .entered ∧
    (s.calls c).reply = none ∧ s.pending c = false
  waits : (s.calls c).stage = .inserted ∨ (s.calls c).stage = .sent →
    (s.calls c).reply ≠ none ∨ s.pending c = true ∨ s.reader = .taken c
  drained : s.Drained (.pending (s.calls c).kind) → s.pending c = true →
    (s.calls c).stage = .inserted
  subscriptions : s.Drained .subscriptions → s.subscriptions c = false
  sessions : s.Drained .sessions → ∀ id, s.sessions id ≠ some c

theorem Accounted.of_untouched (h : s.Accounted c) (hsame : Untouched s s' c) : s'.Accounted c := by
  obtain ⟨hcalls, hpend, htaken, -, -, hsubs, hsess, hdrain⟩ := hsame
  constructor
  · simpa only [hcalls, hpend] using h.fresh
  · simpa only [hcalls] using h.once
  · simpa only [hcalls, hpend] using h.pending
  · simpa only [hcalls, hpend, htaken] using h.taken
  · simpa only [hcalls, hpend, htaken] using h.waits
  · simpa only [hcalls, hpend] using h.drained ∘ hdrain _
  · simpa only [hsubs] using h.subscriptions ∘ hdrain _
  · exact fun hdrained id hid ↦ h.sessions (hdrain _ hdrained) id (hsess id hid)

theorem accounted_drain {table : Table} {rest : List Table} (h : s.Accounted c)
    (hdrain : s.draining = table :: rest) :
    Accounted { s.drainTable table with draining := rest } c := by
  cases table with
  | pending kind =>
    by_cases hdrained : s.pending c = true ∧ (s.calls c).kind = kind
    · obtain ⟨_, _⟩ := h.pending hdrained.1
      cases h
      constructor <;> simp [drainTable, hdrained] <;> grind [Stage.waits, Drained]
    · cases h
      constructor <;> simp [drainTable, hdrained] <;> grind [Drained]
  | subscriptions | sessions =>
    cases h
    constructor <;> simp [drainTable] <;> grind [Drained]

theorem accounted_acceptAnswer {answer : Answer} (hC : s.InstallsInTime (.accept c answer))
    (h : s.Accounted c) (hidle : s.reader = .idle) (hpend : s.pending c = true)
    (hstep : s.acceptAnswer c (s.calls c).kind answer = some s') : s'.Accounted c := by
  cases h
  generalize hkind : (s.calls c).kind = kind at hstep
  revert hstep
  fun_cases acceptAnswer <;> rintro ⟨⟩ <;> constructor <;> simp [Function.update_apply, Drained] <;>
    grind [Stage.waits, InstallsInTime, entering, Drained, mem_allTables]

/-- A step about the call. -/
theorem accounted_of_callOf {label : Label} (hC : s.InstallsInTime label) (h : s.Accounted c)
    (hc : s.callOf label = some c) (hstep : s.step label = some s') : s'.Accounted c := by
  revert hC hc hstep
  fun_cases step <;> intro hC hc hstep <;> try cases hstep
  case case19 hreader _ | case20 hreader _ | case22 hreader =>
    rw [callOf, hreader] at hc
    cases hc
    have hopen := hC .subscriptions
    cases h
    constructor <;> simp [Drained] <;> grind -linarith [entering, Drained, Stage.waits]
  all_goals cases hc
  case case17 hready => exact accounted_acceptAnswer hC h hready.1 hready.2 hstep
  case case11 answer _ _ _ =>
    cases h
    cases answer <;> constructor <;> simp [Drained, pickedUp] <;> grind -linarith [Drained]
  all_goals
    cases h
    constructor <;> simp [cancelPending, Drained, Function.update_apply] <;>
      grind -linarith [Stage.waits, Drained]

theorem accounted_step {label : Label} (hC : s.InstallsInTime label) (hacc : ∀ c, s.Accounted c)
    (hstep : s.step label = some s') (c : ℕ) : s'.Accounted c := by
  by_cases hdrain : label = .drain
  · subst hdrain
    simp only [step] at hstep
    split at hstep
    · cases hstep
    · split_ifs at hstep
      cases hstep
      exact accounted_drain (hacc c) ‹_›
  by_cases hc : s.callOf label = some c
  · exact accounted_of_callOf hC (hacc c) hc hstep
  · exact (hacc c).of_untouched (untouched_of_step hstep hc hdrain)

/-! ### Every run -/

theorem ended_of_accounted (h : ∀ c, s.Accounted c) (hfin : s.Finished) : s.Ended := by
  obtain ⟨hclosed, hdrain, hreader, hcalls⟩ := hfin
  have hdrained (table : Table) : s.Drained table := ⟨hclosed, by simp [hdrain]⟩
  have hpend (c : ℕ) : s.pending c = false := by
    by_contra hpend
    exact (hcalls c).2 ((h c).drained (hdrained _) (by simpa using hpend))
  have hsubs (c : ℕ) : s.subscriptions c = false := (h c).subscriptions (hdrained _)
  have hsess (id : SessionId) : s.sessions id = none := by
    by_contra hsome
    obtain ⟨c, hc⟩ := Option.ne_none_iff_exists'.mp hsome
    exact (h c).sessions (hdrained _) id hc
  refine ⟨fun c hsent ↦ ?_, fun c ↦ ?_, fun _ id _ ↦ ?_, fun c ↦ ?_, hpend, hsubs, hsess⟩
  · -- nothing but its answer keeps the call any more
    have hreply : (s.calls c).reply ≠ none := by
      simpa [hpend c, hreader] using (h c).waits (Or.inr hsent)
    rw [(h c).once, if_neg hreply]
  · rw [(h c).once]
    split <;> simp
  · simp [hasFence, hsess id]
  · simp [Runtime.streams, hpend c, hsubs c, hreader, Reader.call]

/-- Assumes: a run from the start in which the reader enters no table that `terminate` has drained,
and which ends when `terminate` has returned and nothing is halfway. -/
theorem ended_of_installsInTime (labels : List Label) {s : Runtime}
    (halong : Along step InstallsInTime {} labels) (hrun : run step {} labels = some s)
    (hfinished : s.Finished) : s.Ended := by
  refine ended_of_accounted ?_ hfinished
  refine run_invariant (I := fun s ↦ ∀ c, s.Accounted c) ?_ (fun c ↦ ?_) halong hrun
  · exact fun s label s' hC hacc hstep c ↦ accounted_step hC hacc hstep c
  · constructor <;> simp

/-- A reader that is stuck stays so, and `terminate` does not return. -/
theorem stuck_of_run {labels : List Label} (hstuck : s.reader = .stuck c)
    (hrun : run step s labels = some s') : s'.reader = .stuck c := by
  refine invariant_of_run (I := fun s ↦ s.reader = .stuck c) ?_ hstuck hrun
  intro s label s' hstuck hstep
  have hbusy : s.reader ≠ .idle := by simp [hstuck]
  revert hstep
  fun_cases step
  case case17 hready => exact absurd hready.1 hbusy
  case case29 table _ _ _ =>
    rintro ⟨⟩
    cases table <;> exact hstuck
  all_goals rintro ⟨⟩ <;> simp_all [cancelPending]

def drains : List Label := List.replicate 5 .drain

/-- A subscription and a session are held when the runtime terminates. -/
def heldLabels : List Label :=
  [.issue 0 .session, .insert 0, .send 0, .issue 1 .subscription, .insert 1, .send 1,
    .accept 0 (.opened [7]), .accept 1 .subscribed, .install, .pickUp 0, .pickUp 1, .terminate] ++
    drains

theorem ended_heldLabels :
    Along step InstallsInTime {} heldLabels ∧
      ∃ s, run step {} heldLabels = some s ∧ s.Finished ∧ s.Ended := by
  have hfin : ∃ s, run step {} heldLabels = some s ∧ s.Finished := by
    refine ⟨_, rfl, rfl, rfl, rfl, fun c ↦ ?_⟩
    rcases c with - | - | c <;> constructor <;> nofun
  obtain ⟨s, hrun, hfin⟩ := hfin
  exact ⟨by decide, s, hrun, hfin, ended_of_installsInTime heldLabels (by decide) hrun hfin⟩

/-- The reader has taken the call of a subscription when the runtime terminates. -/
def lateLabels : List Label :=
  [.issue 0 .subscription, .insert 0, .send 0, .accept 0 .subscribed, .terminate] ++ drains ++
    [.install, .pickUp 0]

theorem subscription_survives_terminate :
    ∃ s, run step {} lateLabels = some s ∧ s.Finished ∧ (s.calls 0).stage = .holding none ∧
      s.streams 0 = true ∧ s.subscriptions 0 = true := by
  refine ⟨_, rfl, ⟨rfl, rfl, rfl, fun c ↦ ?_⟩, rfl, rfl, rfl⟩
  rcases c with - | c <;> constructor <;> nofun

end Runtime

end HydraCache.Hc2
