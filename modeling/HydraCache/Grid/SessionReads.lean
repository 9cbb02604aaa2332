import HydraCache.Grid.ConditionalStore
import HydraCache.Grid.SessionContext
import HydraCache.Lib.Run

/-!
# The reads of a session

Two guards decide whether a replica's value may be served to a session. `resolveSessionRead` is the
guard of read-your-writes, with a ladder of escalations for a value below the watermark;
`resolveMonotonicRead` is the guard of monotonic reads. Both compare the value's stamp with the
highest the watermark holds for the key, and both let anything through for a key the watermark does
not hold.

A `Session` is the watermark together with every stamp the session observed or wrote. In a run in
which no recording drops a key, a read of that key that either guard lets through is at or above all
of its stamps (`served_above`). Once the key is dropped they let every read of it through: a session
with room for one entry that has read one value and written another elsewhere can read an older one
(`served_below`).

Scope. What a caller does with an escalation is outside the model, the reads that follow one
included.
-/

set_option autoImplicit false

namespace HydraCache.Grid

open Lib

/-! ### Read your writes -/

inductive ReadEscalation where
  | serveLocal
  | tryHigherLevel (level : ConsistencyLevel)
  | readRepair
  | waitThenFail
  | failUnmet
deriving DecidableEq

structure SessionReadBudget where
  allowHigherLevel : Bool
  allowReadRepair : Bool
  waitBudgetMillis : ℕ
deriving DecidableEq

namespace SessionReadBudget

def failFast : SessionReadBudget where
  allowHigherLevel := false
  allowReadRepair := false
  waitBudgetMillis := 0

end SessionReadBudget

structure SessionGuaranteeUnmet where
  key : PartitionKey
  required : VersionStamp
  candidate : VersionStamp
deriving DecidableEq

section

variable (watermark : SessionWatermark)

section

variable (key : PartitionKey) (replicaStamp : VersionStamp) (budget : SessionReadBudget)

def resolveSessionRead : ReadEscalation :=
  match watermark.highestSeen key with
  | none => .serveLocal
  | some required =>
    if required ≤ replicaStamp then .serveLocal
    else if budget.allowHigherLevel then .tryHigherLevel .quorum
    else if budget.allowReadRepair then .readRepair
    else if 0 < budget.waitBudgetMillis then .waitThenFail
    else .failUnmet

def serveSessionRead : Except SessionGuaranteeUnmet ReadEscalation × SessionWatermark :=
  match resolveSessionRead watermark key replicaStamp budget with
  | .serveLocal => (.ok .serveLocal, watermark.observe key replicaStamp)
  | .failUnmet =>
    let required := (watermark.highestSeen key).getD replicaStamp
    (.error { key, required, candidate := replicaStamp }, watermark)
  | escalation => (.ok escalation, watermark)

end

/-! ### Monotonic reads -/

inductive MonotonicReadDecision where
  | serveLocal
  | preventStale (required candidate : VersionStamp)
deriving DecidableEq

structure MonotonicReadViolation where
  key : PartitionKey
  required : VersionStamp
  candidate : VersionStamp
deriving DecidableEq

def resolveMonotonicRead (key : PartitionKey) (candidate : VersionStamp) : MonotonicReadDecision :=
  match watermark.highestSeen key with
  | none => .serveLocal
  | some required => if required ≤ candidate then .serveLocal else .preventStale required candidate

def applyMonotonicRead (key : PartitionKey) (candidate : VersionStamp) :
    Except MonotonicReadViolation Unit × SessionWatermark :=
  match resolveMonotonicRead watermark key candidate with
  | .serveLocal => (.ok (), watermark.observe key candidate)
  | .preventStale required candidate => (.error { key, required, candidate }, watermark)

end

/-! ### What the guards let through -/

section Guards

variable {watermark : SessionWatermark} {key : PartitionKey} {candidate : VersionStamp}

theorem resolveSessionRead_eq_serveLocal_iff {budget : SessionReadBudget} :
    resolveSessionRead watermark key candidate budget = .serveLocal ↔
      ∀ required ∈ watermark.highestSeen key, required ≤ candidate := by
  unfold resolveSessionRead
  cases watermark.highestSeen key with
  | none => simp
  | some => split_ifs <;> simp_all

theorem resolveMonotonicRead_eq_serveLocal_iff :
    resolveMonotonicRead watermark key candidate = .serveLocal ↔
      ∀ required ∈ watermark.highestSeen key, required ≤ candidate := by
  unfold resolveMonotonicRead
  cases watermark.highestSeen key with
  | none | some => simp

/-- One of the guards allows the read to be served from the local replica. -/
def ServedLocally (watermark : SessionWatermark) (key : PartitionKey) (candidate : VersionStamp) :
    Prop :=
  (∃ budget, resolveSessionRead watermark key candidate budget = .serveLocal) ∨
    resolveMonotonicRead watermark key candidate = .serveLocal

theorem servedLocally_iff : ServedLocally watermark key candidate ↔
    ∀ required ∈ watermark.highestSeen key, required ≤ candidate := by
  unfold ServedLocally
  simp only [resolveSessionRead_eq_serveLocal_iff, resolveMonotonicRead_eq_serveLocal_iff]
  constructor
  · rintro (⟨-, h⟩ | h) <;> exact h
  · exact Or.inr

end Guards

/-! ### A session -/

/-- The watermark of a session, and the stamps it has observed or written, the latest first. -/
structure Session where
  watermark : SessionWatermark
  stamps : List (PartitionKey × VersionStamp)

namespace Session

def new (cap : ℕ) : Session where
  watermark := .new cap
  stamps := []

/-- The session after it has observed or written a stamp. -/
def noting (session : Session) (key : PartitionKey) (stamp : VersionStamp)
    (watermark : SessionWatermark) : Session where
  watermark
  stamps := (key, stamp) :: session.stamps

end Session

inductive SessionOp where
  | observe (key : PartitionKey) (stamp : VersionStamp)
  | recordWrite (key : PartitionKey) (stamp : VersionStamp)
  | serveSessionRead (key : PartitionKey) (replicaStamp : VersionStamp) (budget : SessionReadBudget)
  | applyMonotonicRead (key : PartitionKey) (candidate : VersionStamp)

namespace SessionOp

def key : SessionOp → PartitionKey
  | observe key _ | recordWrite key _ | serveSessionRead key _ _ | applyMonotonicRead key _ => key

def stamp : SessionOp → VersionStamp
  | observe _ stamp | recordWrite _ stamp | serveSessionRead _ stamp _
  | applyMonotonicRead _ stamp => stamp

end SessionOp

/-- A read that is not served is not an observation. -/
def Session.after (session : Session) : SessionOp → Session
  | .observe key stamp => session.noting key stamp (session.watermark.observe key stamp)
  | .recordWrite key stamp => session.noting key stamp (session.watermark.recordWrite key stamp)
  | .serveSessionRead key replicaStamp budget =>
    match serveSessionRead session.watermark key replicaStamp budget with
    | (.ok .serveLocal, watermark) => session.noting key replicaStamp watermark
    | (_, watermark) => { session with watermark }
  | .applyMonotonicRead key candidate =>
    match applyMonotonicRead session.watermark key candidate with
    | (.ok (), watermark) => session.noting key candidate watermark
    | (.error _, watermark) => { session with watermark }

def sessionStep (session : Session) (op : SessionOp) : Option Session := some (session.after op)

/-- An operation records its stamp, or leaves the session as it is. -/
theorem Session.after_cases (session : Session) (op : SessionOp) :
    session.after op =
        session.noting op.key op.stamp (session.watermark.record op.key op.stamp) ∨
      session.after op = session := by
  cases op with
  | observe | recordWrite => exact .inl rfl
  | serveSessionRead key replicaStamp budget =>
    unfold after serveSessionRead
    dsimp only
    cases resolveSessionRead session.watermark key replicaStamp budget with
    | serveLocal => exact .inl rfl
    | tryHigherLevel | readRepair | waitThenFail | failUnmet => exact .inr rfl
  | applyMonotonicRead key candidate =>
    unfold after applyMonotonicRead
    dsimp only
    cases resolveMonotonicRead session.watermark key candidate with
    | serveLocal => exact .inl rfl
    | preventStale => exact .inr rfl

/-! ### Floors -/

variable {session : Session} {key : PartitionKey} {candidate : VersionStamp}

/-- The watermark holds a floor for the key that no stamp of the session is above. -/
def Floored (key : PartitionKey) (session : Session) : Prop :=
  ∀ stamp, (key, stamp) ∈ session.stamps →
    ∃ floor ∈ session.watermark.highestSeen key, stamp ≤ floor

/-- The operation does not drop the key from the watermark. -/
def Retains (key : PartitionKey) (session : Session) (op : SessionOp) : Prop :=
  session.watermark.evicted op.key ≠ some key

instance (key : PartitionKey) (session : Session) (op : SessionOp) :
    Decidable (Retains key session op) := inferInstanceAs (Decidable (_ ≠ _))

theorem Floored.after {op : SessionOp} (h : Floored key session) (hop : Retains key session op) :
    Floored key (session.after op) := by
  rcases session.after_cases op with hafter | hafter
  · rw [hafter]
    intro stamp hstamp
    change ∃ floor ∈ (session.watermark.record op.key op.stamp).highestSeen key, stamp ≤ floor
    rw [SessionWatermark.highestSeen_record]
    by_cases hkey : key = op.key
    · subst hkey
      refine ⟨_, if_pos rfl, ?_⟩
      rcases List.mem_cons.mp hstamp with heq | hold
      · -- the stamp just recorded
        rw [(Prod.mk.inj heq).2]
        cases session.watermark.highestSeen op.key with
        | none => exact le_rfl
        | some floor => exact le_max_right floor op.stamp
      · obtain ⟨floor, hfloor, hle⟩ := h stamp hold
        rw [Option.mem_def.mp hfloor]
        exact hle.trans (le_max_left floor op.stamp)
    · rw [if_neg hkey, if_neg hop]
      rcases List.mem_cons.mp hstamp with heq | hold
      · exact absurd (Prod.mk.inj heq).1 hkey
      · exact h stamp hold
  · rwa [hafter]

theorem floored_of_run {cap : ℕ} {ops : List SessionOp}
    (hkept : Along sessionStep (Retains key) (.new cap) ops)
    (hrun : run sessionStep (.new cap) ops = some session) : Floored key session := by
  refine run_invariant (fun session op session' hop h hstep ↦ ?_) ?_ hkept hrun
  · cases hstep
    exact h.after hop
  · intro stamp hstamp
    cases hstamp

/-! ### Served reads -/

/-- Assumes: a run of a session in which no operation drops the key from the watermark. A read of
the key that a guard allows to be served locally is at or above every stamp the session observed or
wrote for it. -/
theorem served_above {cap : ℕ} {ops : List SessionOp}
    (hretained : Along sessionStep (Retains key) (.new cap) ops)
    (hrun : run sessionStep (.new cap) ops = some session)
    (hserved : ServedLocally session.watermark key candidate) :
    ∀ stamp, (key, stamp) ∈ session.stamps → stamp ≤ candidate := by
  intro stamp hstamp
  obtain ⟨floor, hfloor, hle⟩ := floored_of_run hretained hrun stamp hstamp
  exact hle.trans (servedLocally_iff.mp hserved floor hfloor)

/-- A read, a write elsewhere, a read that is refused and one that is served. -/
def readAndWrite : List SessionOp :=
  [.observe ⟨1, "eu"⟩ { version := 5 }, .recordWrite ⟨2, "eu"⟩ { version := 6 },
    .serveSessionRead ⟨1, "eu"⟩ { version := 4 } .failFast,
    .applyMonotonicRead ⟨1, "eu"⟩ { version := 7 }]

theorem served_above_readAndWrite :
    ∃ session, run sessionStep (.new 2) readAndWrite = some session ∧
      session.stamps = [(⟨1, "eu"⟩, { version := 7 }), (⟨2, "eu"⟩, { version := 6 }),
        (⟨1, "eu"⟩, { version := 5 })] ∧
      ∀ stamp, (⟨1, "eu"⟩, stamp) ∈ session.stamps → stamp ≤ { version := 8 } := by
  refine exists_eq_some (fun session ↦ session.stamps = _ ∧
    resolveMonotonicRead session.watermark ⟨1, "eu"⟩ { version := 8 } = .serveLocal) ?_
      fun session hrun ⟨hstamps, hserved⟩ ↦ ⟨hstamps, served_above ?_ hrun (.inr hserved)⟩
  all_goals decide +kernel

/-- Where the watermark is full, a write elsewhere drops the stamp of an earlier read, and both
guards then let the session read an older value. -/
theorem served_below :
    ∃ session, run sessionStep (.new 1) [.observe ⟨1, "eu"⟩ { version := 5 },
        .recordWrite ⟨2, "eu"⟩ { version := 6 }] = some session ∧
      (⟨1, "eu"⟩, { version := 5 }) ∈ session.stamps ∧
      (∀ budget, resolveSessionRead session.watermark ⟨1, "eu"⟩ { version := 1 } budget =
        .serveLocal) ∧
      resolveMonotonicRead session.watermark ⟨1, "eu"⟩ { version := 1 } = .serveLocal ∧
      ({ version := 1 } : VersionStamp) < { version := 5 } := by
  refine exists_eq_some (fun session ↦ (⟨1, "eu"⟩, { version := 5 }) ∈ session.stamps ∧
    ∀ required ∈ session.watermark.highestSeen ⟨1, "eu"⟩, required ≤ { version := 1 }) ?_
      fun session _ ⟨hstamp, hfree⟩ ↦ ⟨hstamp,
        fun budget ↦ resolveSessionRead_eq_serveLocal_iff.mpr hfree,
        resolveMonotonicRead_eq_serveLocal_iff.mpr hfree, ?_⟩
  all_goals decide +kernel

end HydraCache.Grid
