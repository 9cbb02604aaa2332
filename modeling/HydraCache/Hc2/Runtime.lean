import HydraCache.Lib.Run

/-!
# The runtime of the HC/2 client

A call takes a permit, enters a table of pending calls, sends its request and waits. The reader
accepts the messages of the peer: it takes the call out of its pending table and answers it. A
subscription or a session is first put in the table of active ones, with the permit, and the caller
that picks the answer up gets a handle. A caller can be dropped where it waits; the guard of the
call then takes it out of the pending table. `terminate` closes the runtime and drains the five
tables, one after the other.

Each step is one access to a table, with the plain code up to the next. The reader is one task, so
it accepts one message after the other; between two of its steps callers and `terminate` may step.
A subscription is taken out of its pending table in one step and put in the active one in another. A
session is accepted in one step, since the table of pending sessions stays locked until the session
is active and answered. Under this lock an acknowledgement that is not valid calls `terminate`,
which waits for the lock when it comes to that table: the reader is then stuck, and so is whatever
needs the table (`locked`). A step leaves all calls alone but the one it is about, except the drains
of `terminate` (`untouched_of_step`).

Scope. The handshake is over before there is a client. A call that finds no permit changes nothing,
so permits are not counted: a permit is taken while the call that took it is in a table or about to
enter one. What requests, events and heartbeats carry is left out. Whatever makes the runtime
terminate, `terminate` may come at any time. A caller that is dropped loses its receiver and runs
its guard in one step. An acknowledgement that comes between the two meets a receiver that is gone:
that of a subscription as one taken just before both does; that of a session takes the session out
again at once, as its loss after both would. With a full outbound queue the latter, too, terminates
under the lock.
-/

set_option autoImplicit false

namespace HydraCache.Hc2

abbrev SessionId := List UInt8

inductive CallKind where
  | invocation
  | subscription
  | session
deriving DecidableEq

/-- What a call is answered with. -/
inductive Answer where
  | response
  | subscribed
  | opened (id : SessionId)
  | failed
deriving DecidableEq

/-- The answer hands the caller an entry of an active table. -/
def Answer.acknowledges : Answer → Bool
  | subscribed | opened _ => true
  | response | failed => false

/-- Where a caller is. It has left once its call returned without a handle or was dropped, and once
its handle is dropped. -/
inductive Stage where
  | idle
  -- past `require_open`, with a permit
  | entered
  -- in its pending table, before the check of `send`
  | inserted
  | sent
  | holding (session : Option SessionId)
  | left
deriving DecidableEq

/-- The caller is in its call. -/
def Stage.waits : Stage → Bool
  | entered | inserted | sent => true
  | idle | holding _ | left => false

/-- A call, with its answer and how often it was answered. -/
structure Call where
  kind : CallKind := .invocation
  stage : Stage := .idle
  reply : Option Answer := none
  answers : ℕ := 0

namespace Call

@[simps] def moveTo (call : Call) (stage : Stage) : Call := { call with stage }

@[simps] def answer (call : Call) (answer : Answer) : Call :=
  { call with reply := some answer, answers := call.answers + 1 }

end Call

/-- What the reader is at. -/
inductive Reader where
  | idle
  -- a subscription that is in no table
  | taken (call : ℕ)
  -- an active subscription whose caller is gone
  | closing (call : ℕ)
  -- in `terminate`, with the pending sessions locked and the permit of the call in hand
  | stuck (call : ℕ)
deriving DecidableEq

/-- The subscription that the reader has in hand. -/
def Reader.call : Reader → Option ℕ
  | taken call | closing call => some call
  | idle | stuck _ => none

def Reader.isStuck : Reader → Bool
  | stuck _ => true
  | idle | taken _ | closing _ => false

inductive Table where
  | pending (kind : CallKind)
  | subscriptions
  | sessions
deriving DecidableEq

structure Runtime where
  calls : ℕ → Call := fun _ ↦ {}
  pending : ℕ → Bool := fun _ ↦ false
  subscriptions : ℕ → Bool := fun _ ↦ false
  -- the call whose permit the entry holds
  sessions : SessionId → Option ℕ := fun _ ↦ none
  reader : Reader := .idle
  closed : Bool := false
  draining : List Table := []

/-- Calls are named by their correlation ids, which are not used twice. -/
inductive Label where
  | issue (call : ℕ) (kind : CallKind)
  | insert (call : ℕ)
  | send (call : ℕ)
  | cancel (call : ℕ)
  | pickUp (call : ℕ)
  | dropHandle (call : ℕ)
  | control (call : ℕ)
  | accept (call : ℕ) (answer : Answer)
  | install
  | close
  | lost (id : SessionId)
  | terminate
  | drain
deriving DecidableEq

namespace Runtime

/-- The order in which `terminate` drains the tables. -/
def allTables : List Table :=
  [.pending .invocation, .pending .subscription, .pending .session, .subscriptions, .sessions]

section

variable (s : Runtime)

/-- `terminate` is called; what it has to drain is left unless it was called before. -/
@[simps] def terminated : Runtime :=
  { s with closed := true, draining := if s.closed then s.draining else allTables }

section

variable (c : ℕ)

@[simps] def move (stage : Stage) : Runtime :=
  { s with calls := Function.update s.calls c ((s.calls c).moveTo stage) }

@[simps] def reply (answer : Answer) : Runtime :=
  { s with calls := Function.update s.calls c ((s.calls c).answer answer) }

/-- The call is out of its pending table. -/
@[simps] def take : Runtime := { s with pending := Function.update s.pending c false }

/-- `cancel_pending`, by the guard of a call that leaves. -/
def cancelPending : Runtime := (s.move c .left).take c

/-- The call needs a table that the reader keeps locked. -/
def locked : Bool := s.reader.isStuck && (s.calls c).kind = .session

@[simps] def setSubscription (active : Bool) : Runtime :=
  { s with subscriptions := Function.update s.subscriptions c active }

@[simps] def setSession (id : SessionId) (call : Option ℕ) : Runtime :=
  { s with sessions := Function.update s.sessions id call }

/-- What `accept` does with the answer to a pending call; one that does not fit is an error. -/
def acceptAnswer : CallKind → Answer → Option Runtime
  | .invocation, .response => some ((s.take c).reply c .response)
  | .subscription, .subscribed => some { s.take c with reader := .taken c }
  | .subscription, .failed => some ((s.take c).reply c .failed)
  | .session, .opened id =>
    some (((s.take c).setSession id (some c)).reply c (.opened id))
  | .session, .failed =>
    some { ((s.take c).reply c .failed).terminated with
      reader := if s.closed then .idle else .stuck c }
  | _, _ => none

end

def drainTable : Table → Runtime
  | .pending kind =>
    { s with
      calls := fun c ↦ if s.pending c ∧ (s.calls c).kind = kind then (s.calls c).answer .failed
        else s.calls c
      pending := fun c ↦ s.pending c && decide ((s.calls c).kind ≠ kind) }
  | .subscriptions => { s with subscriptions := fun _ ↦ false }
  | .sessions => { s with sessions := fun _ ↦ none }

/-- The handle, or the end, that an answer picked up brings. -/
def pickedUp : Answer → Stage
  | .subscribed => .holding none
  | .opened id => .holding (some id)
  | .response | .failed => .left

def step : Label → Option Runtime
  | .issue c kind =>
    if (s.calls c).stage = .idle ∧ s.closed = false then
      some { s with calls := Function.update s.calls c { kind, stage := .entered } }
    else none
  | .insert c =>
    if (s.calls c).stage = .entered ∧ s.locked c = false then
      some { s.move c .inserted with pending := Function.update s.pending c true }
    else none
  | .send c =>
    if (s.calls c).stage = .inserted ∧ s.locked c = false then
      if s.closed then some (s.cancelPending c) else some (s.move c .sent)
    else none
  | .cancel c =>
    if (s.calls c).stage.waits ∧ s.locked c = false then some (s.cancelPending c) else none
  | .pickUp c =>
    match (s.calls c).stage, (s.calls c).reply with
    | .sent, some answer =>
      -- the guard of a call that failed looks for it in the pending table
      if answer = .failed ∧ s.locked c then none else some (s.move c (pickedUp answer))
    | _, _ => none
  | .dropHandle c =>
    match (s.calls c).stage with
    | .holding none => some ((s.setSubscription c false).move c .left)
    | .holding (some id) => some ((s.setSession id none).move c .left)
    | _ => none
  -- the control of a subscription closes it beside its handle
  | .control c => some (s.setSubscription c false)
  | .accept c answer =>
    if s.reader = .idle ∧ s.pending c then s.acceptAnswer c (s.calls c).kind answer else none
  | .install =>
    match s.reader with
    | .taken c =>
      -- a caller that is gone leaves the active subscription to the reader
      if (s.calls c).stage.waits then
        some { (s.setSubscription c true).reply c .subscribed with reader := .idle }
      else some { s.setSubscription c true with reader := .closing c }
    | _ => none
  | .close =>
    match s.reader with
    | .closing c => some { s.setSubscription c false with reader := .idle }
    | _ => none
  | .lost id => if s.reader = .idle then some (s.setSession id none) else none
  | .terminate => some s.terminated
  | .drain =>
    match s.draining with
    | [] => none
    | table :: rest =>
      if table = .pending .session ∧ s.reader.isStuck then none
      else some { s.drainTable table with draining := rest }

/-! ### Other calls -/

/-- The call that a step is about, if any. -/
def callOf : Label → Option ℕ
  | .issue c _ | .insert c | .send c | .cancel c | .pickUp c | .dropHandle c | .control c
  | .accept c _ => some c
  | .install | .close => s.reader.call
  | .lost _ | .terminate | .drain => none

/-- `terminate` has drained the table. -/
def Drained (table : Table) : Prop := s.closed = true ∧ table ∉ s.draining

instance (table : Table) : Decidable (s.Drained table) := inferInstanceAs (Decidable (_ ∧ _))

end

/-- What a step about another call leaves of a call. A session can be lost or replaced. -/
structure Untouched (s s' : Runtime) (c : ℕ) : Prop where
  calls : s'.calls c = s.calls c
  pending : s'.pending c = s.pending c
  taken : s'.reader = .taken c ↔ s.reader = .taken c
  closing : s'.reader = .closing c → s.reader = .closing c
  stuck : s'.reader = .stuck c → s.reader = .stuck c
  subscriptions : s'.subscriptions c = s.subscriptions c
  sessions : ∀ id, s'.sessions id = some c → s.sessions id = some c
  drained : ∀ table, s'.Drained table → s.Drained table

theorem mem_allTables (table : Table) : table ∈ allTables := by
  cases table with
  | pending kind => cases kind <;> decide
  | subscriptions | sessions => decide

theorem untouched_of_step {s s' : Runtime} {label : Label} {c : ℕ} (hstep : s.step label = some s')
    (hc : s.callOf label ≠ some c) (hdrain : label ≠ .drain) : Untouched s s' c := by
  revert hstep hc hdrain
  fun_cases step <;> intro hstep hc hdrain
  case case17 call answer hready =>
    have hne : call ≠ c := fun heq ↦ hc (congrArg some heq)
    generalize (s.calls call).kind = kind at hstep
    revert hstep
    -- an acknowledgement that is not valid also terminates the runtime
    fun_cases acceptAnswer <;> rintro ⟨⟩ <;> constructor <;>
      simp [Drained, hne, hne.symm, hready.1, Function.update_apply] <;> grind [mem_allTables]
  all_goals cases hstep
  all_goals constructor <;> simp [Drained, cancelPending, Function.update_apply, *] <;>
    grind [callOf, Reader.call, mem_allTables]

end Runtime

end HydraCache.Hc2
