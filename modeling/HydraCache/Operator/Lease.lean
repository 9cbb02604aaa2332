import Mathlib.Order.Basic

/-!
# The lease of the operator

Replicas of the operator reconcile a cluster under a lease. A replica reads the lease, makes one in
its own name if there is none, and goes on to the apply path only as the holder. The lease says for
how long it is good, but nothing reads that, and nothing renews or removes it.

So no two replicas are in the apply path at a time. But a holder that stops keeps the lease: once
one has stopped for good, nobody comes to the apply path any more, whoever goes on to reconcile
(`exclusive_and_takenOver_iff`, `stoppedHolder_not_takenOver`).

Scope. A call to the server that fails otherwise than for a lease that is or is not there is left
out. A failed read changes nothing and is made again. A create whose reply is lost may have made the
lease: that is a create after which the replica leaves the apply path at once.
-/

set_option autoImplicit false

namespace HydraCache.Operator

structure Lease where
  holderIdentity : Option String
  leaseDurationSeconds : Option ℕ

def operatorLeaseForCluster (identity : String) : Lease := ⟨some identity, some 15⟩

def isLeader (identity : String) (lease : Lease) : Bool := lease.holderIdentity = some identity

/-- Where a replica is in `reconcile`. -/
inductive Phase where
  | waiting
  | creating
  | applying
  | stopped
deriving DecidableEq

/-- The lease on the server, and the replicas by their identities. -/
structure Replicas where
  lease : Option Lease := none
  phase : String → Phase := fun _ ↦ .waiting

/-- The two calls of `holds_leader_lease`, the end of the apply path, and a replica that stops or
comes back. -/
inductive ReplicaEvent where
  | get (identity : String)
  | create (identity : String)
  | applied (identity : String)
  | stop (identity : String)
  | start (identity : String)

namespace Replicas

variable (s : Replicas) (identity : String)

def enter (phase : Phase) : Replicas :=
  { s with phase := Function.update s.phase identity phase }

/-- Go on with a lease that was read or made: to the apply path as its leader, or back. -/
def goOn (lease : Lease) : Replicas :=
  s.enter identity (if isLeader identity lease then .applying else .waiting)

/-- A call of a replica that is not at this call is none. -/
def step : ReplicaEvent → Replicas
  | .get identity =>
    if s.phase identity = .waiting then s.lease.elim (s.enter identity .creating) (s.goOn identity)
      else s
  | .create identity =>
    if s.phase identity = .creating then
      match s.lease with
      | none =>
        let created := operatorLeaseForCluster identity
        { s with lease := created }.goOn identity created
      | some _ => s.enter identity .waiting
    else s
  | .applied identity => if s.phase identity = .applying then s.enter identity .waiting else s
  | .stop identity => s.enter identity .stopped
  | .start identity => if s.phase identity = .stopped then s.enter identity .waiting else s

def Holds : Prop := ∃ lease ∈ s.lease, isLeader identity lease

/-- Whoever is in the apply path holds the lease. -/
def Sound : Prop := ∀ identity, s.phase identity = .applying → s.Holds identity

variable {s identity}

theorem Holds.unique {other : String} (h : s.Holds identity) (hother : s.Holds other) :
    identity = other := by
  obtain ⟨lease, hlease, hleader⟩ := h
  obtain ⟨lease', hlease', hleader'⟩ := hother
  cases Option.mem_unique hlease hlease'
  exact Option.some.inj ((of_decide_eq_true hleader).symm.trans (of_decide_eq_true hleader'))

theorem Sound.enter (h : s.Sound) {phase : Phase} (hphase : phase = .applying → s.Holds identity) :
    (s.enter identity phase).Sound := by
  intro other hother
  by_cases heq : other = identity
  · subst heq
    exact hphase (by simpa [Replicas.enter] using hother)
  · exact h other (by simpa [Replicas.enter, heq] using hother)

theorem Sound.goOn (h : s.Sound) {lease : Lease} (hlease : s.lease = some lease) :
    (s.goOn identity lease).Sound := by
  refine h.enter fun hphase ↦ ⟨lease, hlease, ?_⟩
  by_contra hleader
  simp [hleader] at hphase

/-- A step keeps the lease there is, and lets only its holder into the apply path. -/
theorem Sound.step (h : s.Sound) (event : ReplicaEvent) :
    (s.step event).Sound ∧ ∀ identity, s.Holds identity → (s.step event).Holds identity := by
  cases event with
  | get identity =>
    rw [Replicas.step]
    split_ifs
    · cases hlease : s.lease with
      | none => exact ⟨h.enter nofun, fun _ ↦ id⟩
      | some lease => exact ⟨h.goOn hlease, fun _ ↦ id⟩
    · exact ⟨h, fun _ ↦ id⟩
  | create identity =>
    rw [Replicas.step]
    split_ifs
    · cases hlease : s.lease with
      | none =>
        have hnone (other : String) : ¬ s.Holds other := by simp [Holds, hlease]
        have hsound : { s with lease := operatorLeaseForCluster identity }.Sound :=
          fun other hother ↦
          absurd (h other hother) (hnone other)
        exact ⟨hsound.goOn rfl, fun other hother ↦ absurd hother (hnone other)⟩
      | some => exact ⟨h.enter nofun, fun _ ↦ id⟩
    · exact ⟨h, fun _ ↦ id⟩
  | stop identity => exact ⟨h.enter nofun, fun _ ↦ id⟩
  | applied identity | start identity =>
    rw [Replicas.step]
    split_ifs
    · exact ⟨h.enter nofun, fun _ ↦ id⟩
    · exact ⟨h, fun _ ↦ id⟩

end Replicas

/-- A run that goes on forever, and the lease there was before it. -/
structure Run where
  lease : Option Lease
  event : ℕ → ReplicaEvent

namespace Run

variable (run : Run)

def state : ℕ → Replicas
  | 0 => { lease := run.lease }
  | n + 1 => (state n).step (run.event n)

/-- The replica holds the lease and has stopped for good. -/
def StopsHolding (n : ℕ) (identity : String) : Prop :=
  (run.state n).Holds identity ∧ ∀ m ≥ n, (run.state m).phase identity = .stopped

def KeepsReconciling (identity : String) : Prop :=
  ∀ n, ∃ m ≥ n, run.event m = .get identity ∧ (run.state m).phase identity = .waiting

theorem sound_state (n : ℕ) : (run.state n).Sound := by
  induction n with
  | zero => exact nofun
  | succ n ih => exact (ih.step _).1

theorem holds_of_le {n m : ℕ} (hle : n ≤ m) {identity : String} (h : (run.state n).Holds identity) :
    (run.state m).Holds identity := by
  induction hle with
  | refl => exact h
  | step _ ih => exact ((run.sound_state _).step _).2 identity ih

/-- In every run no two replicas are in the apply path at a time. That some replica comes to the
apply path after a holder has stopped for good, while another one keeps reconciling, is true only of
a run in which no holder does that. -/
theorem exclusive_and_takenOver_iff :
    (∀ n a b, (run.state n).phase a = .applying → (run.state n).phase b = .applying → a = b) ∧
      ((∀ n a b, run.StopsHolding n a → run.KeepsReconciling b →
          ∃ m ≥ n, ∃ c, (run.state m).phase c = .applying) ↔
        ∀ n a b, run.StopsHolding n a → ¬ run.KeepsReconciling b) := by
  have hholds (n : ℕ) (a : String) := run.sound_state n a
  refine ⟨fun n a b ha hb ↦ (hholds n a ha).unique (hholds n b hb), fun h n a b hstop hkeeps ↦ ?_,
    fun h n a b hstop hkeeps ↦ absurd hkeeps (h n a b hstop)⟩
  obtain ⟨m, hle, c, hc⟩ := h n a b hstop hkeeps
  -- the lease is still the one of the replica that has stopped
  obtain rfl := (hholds m c hc).unique (run.holds_of_le hle hstop.1)
  simp [hstop.2 m hle] at hc

/-- A replica makes the lease and stops, and another one reads the lease over and over. -/
def stoppedHolder : Run where
  lease := none
  event n := [.get "a", .create "a", .stop "a"].getD n (.get "b")

theorem state_stoppedHolder (n : ℕ) : stoppedHolder.state (3 + n) = stoppedHolder.state 3 := by
  induction n with
  | zero => rfl
  | succ n ih =>
    rw [← Nat.add_assoc, state, ih]
    simp [stoppedHolder, state, Replicas.step, Replicas.enter, Replicas.goOn, isLeader,
      operatorLeaseForCluster, Nat.add_comm 3]

theorem stoppedHolder_not_takenOver :
    stoppedHolder.StopsHolding 3 "a" ∧ stoppedHolder.KeepsReconciling "b" ∧
      ∀ m ≥ 3, ∀ c, (stoppedHolder.state m).phase c ≠ .applying := by
  refine ⟨⟨⟨operatorLeaseForCluster "a", rfl, rfl⟩, fun m hle ↦ ?_⟩,
    fun n ↦ ⟨3 + n, by omega, ?_, ?_⟩, fun m hle c ↦ ?_⟩
  · obtain ⟨n, rfl⟩ := Nat.exists_eq_add_of_le hle
    rw [state_stoppedHolder]
    rfl
  · simp [stoppedHolder, Nat.add_comm 3]
  · rw [state_stoppedHolder]
    rfl
  · obtain ⟨n, rfl⟩ := Nat.exists_eq_add_of_le hle
    rw [state_stoppedHolder]
    by_cases hc : c = "a" <;>
      simp [stoppedHolder, state, Replicas.step, Replicas.enter, Replicas.goOn, hc]

end Run

end HydraCache.Operator
