import HydraCache.Db.Outbox
import HydraCache.Lib.Run

/-!
# Outbox workers

Any number of workers drain one outbox. An iteration claims rows, applies the intent of each and
reports the result; between any two of these calls the others go on, and the claim can run out
before the report.

`RowChange` says what a step can do to a row. A row is published by a worker that applied its
intent, so only intents that were applied are published (`Sound.applied`). A report of a failure
does not look at the claim: a worker whose claim ran out sends a row back that another has published
since. In the runs in which every failure is reported under the claim the row was taken with, a
published row stays published, and so does a commit a wait was satisfied for (`published_stays`).

Scope. What applying an intent does is left to the cache; its result is part of the event. A worker
can stop at any point of an iteration, as when a call fails or its process ends. The counters of a
worker are left out.
-/

set_option autoImplicit false

namespace HydraCache.Db

open Lib Outbox List Option

/-! ### Workers -/

structure InvalidationOutboxWorker where
  ns : String
  owner : String := "hydracache-outbox-worker"
  batchSize : ℕ := 64
  claimTtlMs : ℕ := 30000
  backoffMs : ℕ := 1000
  maxAttempts : ℕ := 5

structure OutboxPublishReport where
  claimed : ℕ := 0
  published : ℕ := 0
  retried : ℕ := 0
  deadLettered : ℕ := 0
deriving DecidableEq

/-- Where a worker is in an iteration. -/
inductive WorkerState where
  /-- Between iterations, with the report of the last. -/
  | idle (report : OutboxPublishReport)
  /-- With the rows that are left, and the result of applying the first if that was done. -/
  | draining (rows : List OutboxRow) (result : Option (Except String Unit))
    (report : OutboxPublishReport)

/-- The outbox, the workers, and the intents applied so far with the ids of their rows. -/
structure OutboxSystem where
  outbox : Outbox := .empty
  workers : ℕ → WorkerState := fun _ ↦ .idle {}
  applied : List (String × InvalidationIntent) := []

inductive OutboxEvent where
  | enqueue (ns commitPosition : String) (batch : InvalidationIntentBatch) (now : ℕ)
  | claim (worker now : ℕ)
  | apply (worker : ℕ) (result : Except String Unit)
  | settle (worker now : ℕ)
  | finish (worker : ℕ)
  | abandon (worker : ℕ)
  | resetDeadLetters (ns : String) (now : ℕ)

namespace OutboxSystem

variable (hashing : Hashing) (config : ℕ → InvalidationOutboxWorker)

def setWorker (s : OutboxSystem) (worker : ℕ) (state : WorkerState) : OutboxSystem :=
  { s with workers := Function.update s.workers worker state }

/-- The last attempt that a worker makes of a row. -/
def givesUp (worker : InvalidationOutboxWorker) (row : OutboxRow) : Bool :=
  decide (worker.maxAttempts ≤ min (row.attempts + 1) maxHalfWord)

/-- The report on the first row of a worker. -/
def settleRow (s : OutboxSystem) (worker now : ℕ) (row : OutboxRow) (rows : List OutboxRow)
    (report : OutboxPublishReport) : Except String Unit → OutboxSystem
  | .ok () =>
    { s with outbox := s.outbox.markPublished [row.id] now }.setWorker worker
      (.draining rows none { report with published := report.published + 1 })
  | .error error =>
    let dead := givesUp (config worker) row
    { s with
      outbox :=
      s.outbox.markFailed row.id error (config worker).backoffMs dead now }.setWorker worker
      (.draining rows none
        (if dead then { report with deadLettered := report.deadLettered + 1 }
        else { report with retried := report.retried + 1 }))

def step (s : OutboxSystem) : OutboxEvent → Option OutboxSystem
  | .enqueue ns commitPosition batch now =>
    some { s with outbox := (s.outbox.enqueue hashing ns commitPosition batch now).2 }
  | .claim worker now =>
    match s.workers worker with
    | .idle _ =>
      let settings := config worker
      let claimed :=
        s.outbox.claim settings.ns settings.owner settings.batchSize settings.claimTtlMs now
      some ({ s with outbox := claimed.2 }.setWorker worker
        (.draining claimed.1 none { claimed := claimed.1.length }))
    | .draining .. => none
  | .apply worker result =>
    match s.workers worker with
    | .draining (row :: rows) none report =>
      let applied := if result.isOk then s.applied ++ [(row.id, row.intent)] else s.applied
      some ({ s with applied }.setWorker worker (.draining (row :: rows) (some result) report))
    | _ => none
  | .settle worker now =>
    match s.workers worker with
    | .draining (row :: rows) (some result) report =>
      some (s.settleRow config worker now row rows report result)
    | _ => none
  | .finish worker =>
    match s.workers worker with
    | .draining [] none report => some (s.setWorker worker (.idle report))
    | _ => none
  | .abandon worker =>
    match s.workers worker with
    | .draining .. => some (s.setWorker worker (.idle {}))
    | .idle _ => none
  | .resetDeadLetters ns now => some { s with outbox := (s.outbox.resetDeadLetters ns now).2 }

/-! ### What a step can do -/

section

variable (s : OutboxSystem)

/-- The ways a step can go. -/
inductive Taken : OutboxEvent → OutboxSystem → Prop where
  | enqueues (ns commitPosition : String) (batch : InvalidationIntentBatch) (now : ℕ) :
      Taken (.enqueue ns commitPosition batch now)
        { s with outbox := (s.outbox.enqueue hashing ns commitPosition batch now).2 }
  | claims {worker last} (now : ℕ) (claimed : List OutboxRow × Outbox)
      (hidle : s.workers worker = .idle last)
      (hclaimed : claimed = s.outbox.claim (config worker).ns (config worker).owner
        (config worker).batchSize (config worker).claimTtlMs now) :
      Taken (.claim worker now) ({ s with outbox := claimed.2 }.setWorker worker
        (.draining claimed.1 none { claimed := claimed.1.length }))
  | applies {worker row rows report}
      (hworker : s.workers worker = .draining (row :: rows) none report) :
      Taken (.apply worker (.ok ()))
        ({ s with applied := s.applied ++ [(row.id, row.intent)] }.setWorker
        worker (.draining (row :: rows) (some (.ok ())) report))
  | applyFails {worker row rows report}
      (error : String) (hworker : s.workers worker = .draining (row :: rows) none report) :
      Taken (.apply worker (.error error))
        (s.setWorker worker (.draining (row :: rows) (some (.error error)) report))
  | settles {worker row rows result report} (now : ℕ)
      (hworker : s.workers worker = .draining (row :: rows) (some result) report) :
      Taken (.settle worker now) (s.settleRow config worker now row rows report result)
  | finishes {worker report}
      (hworker : s.workers worker = .draining [] none report) :
      Taken (.finish worker) (s.setWorker worker (.idle report))
  | abandons (worker : ℕ) : Taken (.abandon worker) (s.setWorker worker (.idle {}))
  | resets (ns : String) (now : ℕ) :
      Taken (.resetDeadLetters ns now) { s with outbox := (s.outbox.resetDeadLetters ns now).2 }

end

variable {hashing config} {s s' : OutboxSystem} {event : OutboxEvent}

theorem taken_of_step (h : step hashing config s event = some s') :
    Taken hashing config s event s' := by
  revert h
  fun_cases step <;> rintro ⟨⟩
  case case1 => exact .enqueues ..
  case case2 hidle _ _ => exact .claims _ _ hidle rfl
  case case4 result _ _ _ hwork _ =>
    cases result
    · exact .applyFails _ hwork
    · exact .applies hwork
  case case6 hwork => exact .settles _ hwork
  case case8 hwork => exact .finishes hwork
  case case10 => exact .abandons _
  case case12 => exact .resets ..

section

variable (s : OutboxSystem) (event : OutboxEvent) (id : String)

/-- What a step can do to the row under an id. -/
inductive RowChange : Option OutboxRow → Option OutboxRow → Prop where
  | kept (row : Option OutboxRow) : RowChange row row
  | enqueued {ns commitPosition batch now row}
      (hevent : event = .enqueue ns commitPosition batch now) (hns : row.ns = ns)
      (hcommit : row.commitPosition = commitPosition) (hstate : row.state = .pending) :
      RowChange none (some row)
  | claimed {row} (owner : String) (now : ℕ) (hstate : row.state = .pending) :
      RowChange (some row) (some (claimedRow owner now row))
  | published {worker taken rows report}
      (row : OutboxRow) (now : ℕ)
      (hworker : s.workers worker = .draining (taken :: rows) (some (.ok ())) report)
      (hid : taken.id = id) : RowChange (some row) (some (publishedRow now row))
  | failed {worker taken rows report error} (row : OutboxRow) (backoffMs : ℕ) (dead : Bool)
    (now : ℕ)
      (hevent : event = .settle worker now)
      (hworker : s.workers worker = .draining (taken :: rows) (some (.error error)) report)
      (hid : taken.id = id) :
      RowChange (some row) (some (failedRow error backoffMs dead now row))
  | reset {row} (ns : String) (now : ℕ) (hstate : row.state = .dead) :
      RowChange (some row) (some (resetRow ns now row))

end

theorem rowChange_of_taken (h : Taken hashing config s event s') (id : String) :
    RowChange s event id (s.outbox.rows.get id) (s'.outbox.rows.get id) := by
  cases h with
  | applies | applyFails | finishes | abandons => exact .kept _
  | enqueues ns commitPosition batch now =>
    rcases s.outbox.get_enqueueIntents (newRow hashing ns commitPosition batch.reason now)
      batch.intents id with hkept | ⟨hnone, intent, hnew⟩
    · exact hkept ▸ .kept _
    · rw [hnone]
      exact hnew ▸ .enqueued rfl rfl rfl rfl
  | claims now _ _ hclaim =>
    rcases s.outbox.get_claim (config _).ns (config _).owner (config _).batchSize
      (config _).claimTtlMs now id
      with hkept | ⟨row, hrow, hclaimable, hnew⟩
    · rw [hclaim]
      exact hkept ▸ .kept _
    · rw [hrow, hclaim]
      unfold claimable at hclaimable
      simp only [Bool.and_eq_true, decide_eq_true_iff] at hclaimable
      exact hnew ▸ .claimed _ now hclaimable.1.1.2
  | resets ns now =>
    rw [get_resetDeadLetters]
    cases s.outbox.rows.get id with
    | none => exact .kept none
    | some row =>
      by_cases hdead : isDeadIn ns row = true
      · refine .reset ns now ?_
        exact of_decide_eq_true (Bool.and_eq_true_iff.mp hdead).2
      · rw [map_some, resetRow, if_neg hdead]
        exact .kept (some row)
  | @settles worker taken _ result _ now hwork =>
    cases result with
    | ok =>
      have hget : (s.outbox.markPublished [taken.id] now).rows.get id = _ :=
        get_modifyRow s.outbox taken.id id (id_publishedRow now)
      refine hget.symm ▸ ?_
      split_ifs with hid
      · cases s.outbox.rows.get id with
        | none => exact .kept none
        | some row => exact .published row now hwork hid.symm
      · exact .kept _
    | error error =>
      have hget : (s.outbox.markFailed taken.id error (config worker).backoffMs
          (givesUp (config worker) taken) now).rows.get id = _ :=
        get_modifyRow s.outbox taken.id id (id_failedRow error _ _ now)
      refine hget.symm ▸ ?_
      split_ifs with hid
      · cases s.outbox.rows.get id with
        | none => exact .kept none
        | some row => exact .failed row _ _ now rfl hwork hid.symm
      · exact .kept _

/-! ### Rows over a step -/

section RowChange

variable {id : String} {row : OutboxRow} {next : Option OutboxRow}

/-- A row stays, with what it was enqueued for. -/
theorem RowChange.keeps (h : RowChange s event id (some row) next) :
    ∃ row', next = some row' ∧ row'.intent = row.intent ∧ row'.ns = row.ns ∧
      row'.commitPosition = row.commitPosition := by
  cases h with
  | kept => exact ⟨row, rfl, rfl, rfl, rfl⟩
  | claimed | published | failed => exact ⟨_, rfl, rfl, rfl, rfl⟩
  | reset =>
    refine ⟨_, rfl, ?_⟩
    unfold resetRow
    split_ifs <;> exact ⟨rfl, rfl, rfl⟩

/-- A row that is published was so before, or a worker reports that it applied its intent. -/
theorem RowChange.published_cases {row' : OutboxRow} {previous : Option OutboxRow}
    (h : RowChange s event id previous (some row')) (hpub : row'.state = .published) :
    previous = some row' ∨ row'.claimedAtMs = none ∧ ∃ row worker taken rows report,
      previous = some row ∧ row.intent = row'.intent ∧
        s.workers worker = .draining (taken :: rows) (some (.ok ())) report ∧ taken.id = id := by
  cases h with
  | kept => exact .inl rfl
  | enqueued _ _ _ hstate | claimed _ _ hstate => cases hstate.symm.trans hpub
  | published row _ hwork hid => exact .inr ⟨rfl, row, _, _, _, _, rfl, rfl, hwork, hid⟩
  | failed _ _ dead => cases dead <;> cases hpub
  | reset _ _ hstate =>
    unfold resetRow at hpub
    split_ifs at hpub
    cases hstate.symm.trans hpub

end RowChange

/-! ### What holds in every state -/

/-- Published rows have been applied and are under no claim; the workers hold rows of the outbox
that they claimed, and those they applied are on the list. -/
structure Sound (s : OutboxSystem) : Prop where
  applied : ∀ id row, s.outbox.rows.get id = some row → row.state = .published →
    (id, row.intent) ∈ s.applied
  unclaimed : ∀ id row, s.outbox.rows.get id = some row → row.state = .published →
    row.claimedAtMs = none
  held : ∀ worker rows result report, s.workers worker = .draining rows result report →
    ∀ taken ∈ rows,
    taken.claimedAtMs ≠ none ∧ ∃ row, s.outbox.rows.get taken.id = some row ∧
      row.intent = taken.intent
  done : ∀ worker taken rows report,
    s.workers worker = .draining (taken :: rows) (some (.ok ())) report →
      (taken.id, taken.intent) ∈ s.applied

theorem sound_init : Sound {} where
  applied _ _ h := by cases h
  unclaimed _ _ h := by cases h
  held _ _ _ _ h := by cases h
  done _ _ _ _ h := by cases h

/-- A step takes nothing off the list of applied intents. -/
theorem applied_of_taken (h : Taken hashing config s event s') : s.applied ⊆ s'.applied := by
  cases h with
  | applies => exact subset_append_left _ _
  | @settles _ _ _ result => cases result <;> exact List.Subset.refl _
  | _ => exact List.Subset.refl _

theorem update_eq {workers : ℕ → WorkerState} {moved worker : ℕ} {state found : WorkerState}
    (h : Function.update workers moved state worker = found) :
    worker = moved ∧ state = found ∨ workers worker = found := by
  by_cases heq : worker = moved
  · rw [heq, Function.update_self] at h
    exact .inl ⟨heq, h⟩
  · rw [Function.update_of_ne heq] at h
    exact .inr h

section

variable (h : Taken hashing config s event s')
include h

/-- A worker stays as it is, goes on with rows it has, the first of which it may have applied, or
has claimed its rows. -/
theorem worker_of_taken {worker : ℕ} {rows : List OutboxRow} {result : Option (Except String Unit)}
    {report : OutboxPublishReport} (hwork : s'.workers worker = .draining rows result report) :
    s.workers worker = .draining rows result report ∨
      ((∃ rows' result' report', s.workers worker = .draining rows' result' report' ∧
        rows ⊆ rows') ∨
        ∀ taken ∈ rows, taken.claimedAtMs ≠ none ∧ s'.outbox.rows.get taken.id = some taken) ∧
      (result = some (.ok ()) → ∀ taken ∈ rows.head?, (taken.id, taken.intent) ∈ s'.applied) := by
  cases h with
  | enqueues | resets => exact .inl hwork
  | finishes | abandons =>
    rcases update_eq hwork with ⟨-, hstate⟩ | hkept
    · cases hstate
    · exact .inl hkept
  | applies hdrain =>
    rcases update_eq hwork with ⟨rfl, hstate⟩ | hkept
    · cases hstate
      refine .inr ⟨.inl ⟨_, _, _, hdrain, List.Subset.refl _⟩, ?_⟩
      intro _ taken htaken
      cases htaken
      exact mem_append_right _ mem_cons_self
    · exact .inl hkept
  | applyFails _ hdrain =>
    rcases update_eq hwork with ⟨rfl, hstate⟩ | hkept
    · cases hstate
      exact .inr ⟨.inl ⟨_, _, _, hdrain, List.Subset.refl _⟩, nofun⟩
    · exact .inl hkept
  | claims now _ _ hclaim =>
    rcases update_eq hwork with ⟨rfl, hstate⟩ | hkept
    · cases hstate
      refine .inr ⟨.inr fun taken htaken ↦ ?_, nofun⟩
      rw [hclaim] at htaken ⊢
      obtain ⟨htime, hget⟩ := mem_claimed htaken
      exact ⟨htime ▸ some_ne_none now, hget⟩
    · exact .inl hkept
  | @settles _ _ _ outcome _ _ hdrain =>
    cases outcome with
    | ok | error =>
      rcases update_eq hwork with ⟨rfl, hstate⟩ | hkept
      · cases hstate
        exact .inr ⟨.inl ⟨_, _, _, hdrain, subset_cons_self _ _⟩, nofun⟩
      · exact .inl hkept

theorem sound_of_taken (hsound : Sound s) : Sound s' where
  applied id row hrow hpub := by
    have hchg := rowChange_of_taken h id
    rw [hrow] at hchg
    refine applied_of_taken h ?_
    rcases hchg.published_cases hpub with
      hpre | ⟨-, before, worker, taken, rows, report, hpre, hintent, hwork, rfl⟩
    · exact hsound.applied id row hpre hpub
    · obtain ⟨-, stored, hsto, htaken⟩ := hsound.held worker _ _ _ hwork taken mem_cons_self
      cases hpre.symm.trans hsto
      rw [← hintent, htaken]
      exact hsound.done worker taken rows report hwork
  unclaimed id row hrow hpub := by
    have hchg := rowChange_of_taken h id
    rw [hrow] at hchg
    rcases hchg.published_cases hpub with hpre | ⟨hclaim, -⟩
    · exact hsound.unclaimed id row hpre hpub
    · exact hclaim
  held worker rows result report hwork taken htaken := by
    have hrows : (∃ rows' result' report',
        s.workers worker = .draining rows' result' report' ∧ rows ⊆ rows') ∨ _ :=
      (worker_of_taken h hwork).elim (.inl ⟨_, _, _, ·, List.Subset.refl _⟩) And.left
    rcases hrows with ⟨rows', result', report', hpre, hrows⟩ | hclaimed
    · obtain ⟨hclaim, row, hrow, hintent⟩ := hsound.held worker rows' result' report' hpre taken
        (hrows htaken)
      have hchg := rowChange_of_taken h taken.id
      rw [hrow] at hchg
      obtain ⟨row', hrow', hintent', -⟩ := hchg.keeps
      exact ⟨hclaim, row', hrow', hintent'.trans hintent⟩
    · obtain ⟨hclaim, hget⟩ := hclaimed taken htaken
      exact ⟨hclaim, taken, hget, rfl⟩
  done worker taken rows report hwork := by
    rcases worker_of_taken h hwork with hkept | ⟨-, happ⟩
    · exact applied_of_taken h (hsound.done worker taken rows report hkept)
    · exact happ rfl taken rfl

end

/-! ### Failures reported under the claim -/

/-- The row that a worker is to report a failure of is under the claim the worker took it with. -/
def failureHeld (s : OutboxSystem) (worker : ℕ) : Bool :=
  match s.workers worker with
  | .draining (taken :: _) (some (.error _)) _ =>
    (s.outbox.rows.get taken.id).all fun row ↦
      decide (row.claimedAtMs = taken.claimedAtMs) && decide (row.claimOwner = taken.claimOwner)
  | _ => true

/-- A failure is reported under the claim. -/
def Held (s : OutboxSystem) : OutboxEvent → Prop
  | .settle worker _ => s.failureHeld worker = true
  | _ => True

instance (s : OutboxSystem) : DecidablePred s.Held
  | .settle worker _ => inferInstanceAs (Decidable (s.failureHeld worker = true))
  | .enqueue .. | .claim .. | .apply .. | .finish _ | .abandon _ | .resetDeadLetters .. =>
    .isTrue trivial

/-- A published row stays published. -/
theorem RowChange.stays_published {id : String} {row : OutboxRow} {next : Option OutboxRow}
    (h : RowChange s event id (some row) next) (hsound : Sound s) (hheld : s.Held event)
    (hrow : s.outbox.rows.get id = some row) (hpub : row.state = .published) :
    ∃ row', next = some row' ∧ row'.state = .published := by
  cases h with
  | kept => exact ⟨row, rfl, hpub⟩
  | claimed _ _ hstate => cases hstate.symm.trans hpub
  | published => exact ⟨_, rfl, rfl⟩
  | reset _ _ hstate => cases hstate.symm.trans hpub
  | @failed worker taken _ _ _ _ _ _ _ hevent hwork hid =>
    -- the row has no claim, and the worker has taken it under one
    subst hevent hid
    obtain ⟨hclaim, -⟩ := hsound.held worker _ _ _ hwork taken mem_cons_self
    have hsame : s.failureHeld worker = true := hheld
    rw [failureHeld, hwork] at hsame
    dsimp only at hsame
    rw [hrow, all_some, Bool.and_eq_true, decide_eq_true_iff] at hsame
    exact absurd (hsame.1.symm.trans (hsound.unclaimed taken.id row hrow hpub)) hclaim

/-- The event puts no rows into the outbox for a commit. -/
def EnqueuesNone (ns commitPosition : String) : OutboxEvent → Prop
  | .enqueue ns' commitPosition' _ _ => ¬ (ns' = ns ∧ commitPosition' = commitPosition)
  | _ => True

theorem commitPublished_of_taken {ns commitPosition : String} (h : Taken hashing config s event s')
    (hsound : Sound s) (hheld : s.Held event) (hnone : EnqueuesNone ns commitPosition event)
    (hcom : s.outbox.CommitPublished ns commitPosition) :
    s'.outbox.CommitPublished ns commitPosition := by
  intro id row' hrow' hns hpos
  have hchg := rowChange_of_taken h id
  cases hrow : s.outbox.rows.get id with
  | none =>
    rw [hrow, hrow'] at hchg
    cases hchg with
    | enqueued hevent hns' hcommit' =>
      subst hevent
      exact absurd ⟨hns'.symm.trans hns, hcommit'.symm.trans hpos⟩ hnone
  | some row =>
    rw [hrow] at hchg
    obtain ⟨found, hfound, -, hns', hposition'⟩ := hchg.keeps
    cases hrow'.symm.trans hfound
    have hpub := hcom id row hrow (hns'.symm.trans hns) (hposition'.symm.trans hpos)
    obtain ⟨next, hnext, hstate⟩ := hchg.stays_published hsound hheld hrow hpub
    rwa [Option.some.inj (hrow'.symm.trans hnext)]

theorem sound_of_run {events : List OutboxEvent}
    (hrun : run (step hashing config) {} events = some s) :
    Sound s :=
  invariant_of_run (I := Sound)
    (fun _ _ _ hsound hstep ↦ sound_of_taken (taken_of_step hstep) hsound)
    sound_init hrun

/-- Assumes: a run in which the failures after some point are reported under the claim. A row that
is published at that point has been applied, and is published in the end; and a wait that is
satisfied at that point is satisfied in the end, if no more intents were enqueued for its commit. -/
theorem published_stays {before after : List OutboxEvent}
    (hbefore : run (step hashing config) {} before = some s)
    (hafter : run (step hashing config) s after = some s')
    (hheld : Along (step hashing config) Held s after) :
    (∀ id row, s.outbox.rows.get id = some row → row.state = .published →
      (id, row.intent) ∈ s.applied ∧
        ∃ row', s'.outbox.rows.get id = some row' ∧ row'.state = .published) ∧
    ∀ (wait : InvalidationWait) (ns commitPosition : String),
      (∀ event ∈ after, EnqueuesNone ns commitPosition event) →
      ∀ now elapsedMs now' elapsedMs',
        (wait.poll (s.outbox.statusForCommit ns commitPosition now) elapsedMs).any (·.satisfied) =
          true →
        (wait.poll (s'.outbox.statusForCommit ns commitPosition now') elapsedMs').any
          (·.satisfied) = true := by
  have hsound := sound_of_run hbefore
  refine ⟨fun id row hrow hpub ↦ ⟨hsound.applied id row hrow hpub, ?_⟩, ?_⟩
  · refine (run_invariant (C := Held) (I := fun s ↦ Sound s ∧
      ∃ row, s.outbox.rows.get id = some row ∧ row.state = .published) ?_ ⟨hsound, row, hrow, hpub⟩
      hheld hafter).2
    rintro s event s' hheld ⟨hsound, row, hrow, hpub⟩ hstep
    have htaken := taken_of_step hstep
    have hchg := rowChange_of_taken htaken id
    rw [hrow] at hchg
    exact ⟨sound_of_taken htaken hsound, hchg.stays_published hsound hheld hrow hpub⟩
  · intro wait ns commitPosition hnone now elapsedMs now' elapsedMs' hsat
    by_cases hmode : wait.mode = .noWait
    · rw [InvalidationWait.poll, if_pos hmode]
      rfl
    · rw [satisfied_poll_iff hmode] at hsat ⊢
      refine (run_invariant (C := fun s event ↦ s.Held event ∧ EnqueuesNone ns commitPosition event)
        (I := fun s ↦ Sound s ∧ s.outbox.CommitPublished ns commitPosition) ?_ ⟨hsound, hsat⟩
        (hheld.and (along_of_forall_mem (fun event hevent _ ↦ hnone event hevent) _)) hafter).2
      rintro s event s' ⟨hheld, hnone⟩ ⟨hsound, hcom⟩ hstep
      have htaken := taken_of_step hstep
      exact ⟨sound_of_taken htaken hsound, commitPublished_of_taken htaken hsound hheld hnone hcom⟩

/-- Rows named by their commit. -/
def commitHashing : Hashing where
  targetHashHex _ := "target"
  outboxRowId _ commitPosition _ := commitPosition

def orderWorkers (_ : ℕ) : InvalidationOutboxWorker where
  ns := "orders"

/-- A worker claims a row and stalls; another claims it when the claim has run out, and publishes
it. -/
def stalledEvents : List OutboxEvent :=
  [.enqueue "orders" "tx-1" ⟨"update", [.key "order:1"]⟩ 0, .claim 0 0, .claim 1 30000,
    .apply 1 (.ok ()), .settle 1 30001]

/-- The worker stops, and fails at the row of another commit that it claims then. -/
def laterEvents : List OutboxEvent :=
  [.abandon 0, .enqueue "orders" "tx-2" ⟨"update", [.key "order:2"]⟩ 30002, .claim 0 30003,
    .apply 0 (.error "down"), .settle 0 30004]

/-- What a run leaves of a row: its state, and whether a wait for its commit is satisfied. -/
def rowSeen (s : OutboxSystem) (commitPosition : String) : Option OutboxState × Bool :=
  ((s.outbox.rows.get commitPosition).map (·.state),
    ((InvalidationWait.mk .local 0).poll
      (s.outbox.statusForCommit "orders" commitPosition 40000) 0).any
      (·.satisfied))

theorem published_stays_stalledEvents :
    ∃ s s', run (step commitHashing orderWorkers) {} stalledEvents = some s ∧
      run (step commitHashing orderWorkers) s laterEvents = some s' ∧
      rowSeen s' "tx-2" = (some .pending, false) ∧
      ∃ row, s'.outbox.rows.get "tx-1" = some row ∧ row.state = .published := by
  obtain ⟨s, hpre, s', hafter, ⟨row, hrow, hpub⟩, hother, hheld⟩ :
      ∃ s ∈ run (step commitHashing orderWorkers) {} stalledEvents,
        ∃ s' ∈ run (step commitHashing orderWorkers) s laterEvents,
          (∃ row ∈ s.outbox.rows.get "tx-1", row.state = .published) ∧
          rowSeen s' "tx-2" = (some .pending, false) ∧
          Along (step commitHashing orderWorkers) Held s laterEvents := by
    decide +kernel
  exact ⟨s, s', hpre, hafter, hother,
    ((published_stays hpre hafter hheld).1 "tx-1" row hrow hpub).2⟩

/-- The stalled worker reports a failure of the row that is published since. -/
theorem published_row_returns :
    ((run (step commitHashing orderWorkers) {} stalledEvents).map (rowSeen · "tx-1"),
      (run (step commitHashing orderWorkers) {}
        (stalledEvents ++ [.apply 0 (.error "down"), .settle 0 30002])).map (rowSeen · "tx-1")) =
    (some (some .published, true), some (some .pending, false)) := by
  decide +kernel

end OutboxSystem

end HydraCache.Db
