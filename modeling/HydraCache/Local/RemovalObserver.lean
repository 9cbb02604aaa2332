import HydraCache.Local.Entry

/-!
# The removal observer

The store reports each removal, with the entry it removed, to the observer, which queues a cleanup
ticket. A later drain takes the tickets one by one and drops the ticket's key from the tag index
where it is still listed with the ticket's version, so that a late cleanup of an old entry does not
touch the listing of a newer one.

A table of in-flight versions, one slot per residue, suppresses duplicate reports. A slot held by
another version, a full queue or a sequence number at its top make the observer dirty: it then
knows that it may have lost a ticket. Drains are exclusive (`tryClaimDrain`).
-/

set_option autoImplicit false

namespace HydraCache.Local

open Lib

/-- `DEFAULT_CLEANUP_CAPACITY`: slots of the version table and places in the queue. -/
def cleanupCapacity : ℕ := 4096

structure CleanupTicket where
  key : Key
  tags : List Tag
  version : ℕ
deriving DecidableEq

/-- The cleanup ticket of a removed entry. -/
def CleanupTicket.ofEntry (key : Key) (entry : CacheEntry) : CleanupTicket :=
  ⟨key, entry.tags, entry.version⟩

structure RemovalObserver where
  queue : List CleanupTicket := []
  draining : Bool := false
  accepted : ℕ := 0
  acknowledged : ℕ := 0
  dirty : Bool := false
  inflightVersions : ℕ → ℕ := fun _ ↦ 0

namespace RemovalObserver

/-- The slot of a version. -/
def slot (version : ℕ) : ℕ := version % cleanupCapacity

section

variable (observer : RemovalObserver)

/-- Count one more report; at the top the count wraps and the observer is dirty. -/
def acceptOne : Bool × RemovalObserver :=
  let counted := { observer with accepted := wrappingSucc observer.accepted }
  if observer.accepted = maxWord then (false, { counted with dirty := true }) else (true, counted)

/-- Count one more drained ticket; at the top the count wraps and the observer is dirty. -/
def acknowledgeOne : RemovalObserver :=
  let counted := { observer with acknowledged := wrappingSucc observer.acknowledged }
  if observer.acknowledged = maxWord then { counted with dirty := true } else counted

section

variable (ticket : CleanupTicket)

/-- Queue a ticket; a full queue drops it and makes the observer dirty. -/
def push : RemovalObserver :=
  if observer.queue.length < cleanupCapacity then
    { observer with queue := observer.queue ++ [ticket] }
  else { observer with dirty := true }

/-- The store reports that it removed `entry`. -/
def observe (key : Key) (entry : CacheEntry) : RemovalObserver :=
  let held := observer.inflightVersions (slot entry.version)
  if held = 0 then
    let claimed := { observer with
      inflightVersions :=
        Function.update observer.inflightVersions (slot entry.version) entry.version }
    let (accepted, counted) := claimed.acceptOne
    if accepted then counted.push (.ofEntry key entry) else counted
  else if held = entry.version then observer
  else ({ observer with dirty := true } : RemovalObserver).acceptOne.2

/-- Claim the drain, unless another one is going on. -/
def tryClaimDrain : Option RemovalObserver :=
  if observer.draining then none else some { observer with draining := true }

/-- The drain is over and its claim released. -/
def releaseDrain : RemovalObserver :=
  { observer with draining := false }

/-- Free the slot of a drained ticket; a slot held by another version makes the observer dirty. -/
def releaseSlot : RemovalObserver :=
  if observer.inflightVersions (slot ticket.version) = ticket.version then
    { observer with
      inflightVersions := Function.update observer.inflightVersions (slot ticket.version) 0 }
  else { observer with dirty := true }

/-- Forget all tickets, once all listings have been rebuilt or dropped. -/
def resetAfterReconcile : RemovalObserver :=
  { observer with
    queue := []
    inflightVersions := fun _ ↦ 0
    acknowledged := observer.accepted
    dirty := false }

/-- Every report was drained and none was lost. -/
def isClean : Bool :=
  !observer.dirty && observer.accepted == observer.acknowledged

/-! ### What the operations do to the queue -/

@[simp] theorem queue_acceptOne : observer.acceptOne.2.queue = observer.queue := by
  unfold acceptOne
  split_ifs <;> rfl

@[simp] theorem queue_acknowledgeOne : observer.acknowledgeOne.queue = observer.queue := by
  unfold acknowledgeOne
  split_ifs <;> rfl

@[simp] theorem queue_releaseSlot : (observer.releaseSlot ticket).queue = observer.queue := by
  unfold releaseSlot
  split_ifs <;> rfl

theorem mem_queue_push {observer : RemovalObserver} {ticket other : CleanupTicket}
    (h : other ∈ (observer.push ticket).queue) : other ∈ observer.queue ∨ other = ticket := by
  unfold push at h
  split_ifs at h
  · simpa using h
  · exact .inl h

/-- A report queues at most the ticket of the entry it reports. -/
theorem mem_queue_observe {observer : RemovalObserver} {key : Key} {entry : CacheEntry}
    {ticket : CleanupTicket} (h : ticket ∈ (observer.observe key entry).queue) :
    ticket ∈ observer.queue ∨ ticket = .ofEntry key entry := by
  unfold observe at h
  simp only at h
  split_ifs at h
  · simpa using mem_queue_push h
  · exact .inl (by simpa using h)
  · exact .inl h
  · exact .inl (by simpa using h)

/-! ### What the operations do to the version table -/

@[simp] theorem inflightVersions_acceptOne :
    observer.acceptOne.2.inflightVersions = observer.inflightVersions := by
  unfold acceptOne
  split_ifs <;> rfl

@[simp] theorem inflightVersions_acknowledgeOne :
    observer.acknowledgeOne.inflightVersions = observer.inflightVersions := by
  unfold acknowledgeOne
  split_ifs <;> rfl

@[simp] theorem inflightVersions_push :
    (observer.push ticket).inflightVersions = observer.inflightVersions := by
  unfold push
  split_ifs <;> rfl

/-- A report puts its version in a slot or leaves the table alone. -/
theorem inflightVersions_observe (key : Key) (entry : CacheEntry) (i : ℕ) :
    (observer.observe key entry).inflightVersions i = observer.inflightVersions i ∨
      (observer.observe key entry).inflightVersions i = entry.version := by
  have hupd : Function.update observer.inflightVersions (slot entry.version) entry.version i =
      observer.inflightVersions i ∨
        Function.update observer.inflightVersions (slot entry.version) entry.version i =
          entry.version := by
    rw [Function.update_apply]
    split_ifs
    · exact .inr rfl
    · exact .inl rfl
  unfold observe
  simp only
  split_ifs
  · simpa using hupd
  · simpa using hupd
  · exact .inl rfl
  · exact .inl (by simp)

/-- A drained ticket frees a slot at most. -/
theorem inflightVersions_releaseSlot (i : ℕ) :
    (observer.releaseSlot ticket).inflightVersions i = observer.inflightVersions i ∨
      (observer.releaseSlot ticket).inflightVersions i = 0 := by
  unfold releaseSlot
  split_ifs
  · dsimp only
    rw [Function.update_apply]
    split_ifs
    · exact .inr rfl
    · exact .inl rfl
  · exact .inl rfl

end

end

end RemovalObserver

end HydraCache.Local
