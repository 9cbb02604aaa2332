import HydraCache.Lib.OrderedMap
import HydraCache.Lib.Word
import Mathlib.Data.Prod.Lex
import Mathlib.Data.String.Basic

/-!
# The invalidation outbox

A write leaves its invalidation intents in an outbox, one row each. Workers claim rows that are due,
apply them and report what came of it: a row is published, or goes back with a time to wait, or is
dead. A claim is a mark with a time on the row; one that is older than its time to live is given to
the next worker.

`Outbox` keeps every row under its own id. `mem_claimed` says what a claim hands out and `get_claim`
what it leaves in the rows; the reports change the one row they name (`get_markPublished`,
`get_markFailed`), whatever claim or state it has. A wait for a commit polls the rows of the commit
(`satisfied_poll_iff`): it is satisfied when all of them are published.

The tags of entities and collections are keys built from segments that are escaped one by one and
joined by colons. No two lists of segments build the same key (`buildString_injOn`).

Scope. The hash functions that make row ids are parameters. Rows are in memory; the times are clock
readings in milliseconds, given with each call. A segment of a key is the text its value prints as.
-/

set_option autoImplicit false

namespace HydraCache.Db

open Lib OrderedMap List

/-! ### Intents and rows -/

inductive InvalidationIntent where
  | key (key : String)
  | tag (tag : String)
  | entity (entity key : String)
  | collection (collection : String)
  | flush
deriving DecidableEq

structure InvalidationIntentBatch where
  reason : String
  intents : List InvalidationIntent

inductive OutboxState where
  | pending
  | published
  | dead
deriving DecidableEq

structure OutboxRow where
  id : String
  ns : String
  commitPosition : String
  targetHash : String
  intent : InvalidationIntent
  reason : String
  createdAtMs : ℕ
  availableAtMs : ℕ
  claimedAtMs : Option ℕ
  claimOwner : Option String
  publishedAtMs : Option ℕ
  attempts : ℕ
  state : OutboxState
  lastError : Option String
deriving DecidableEq

def OutboxRow.claimIsAvailable (row : OutboxRow) (now claimTtlMs : ℕ) : Bool :=
  match row.claimedAtMs with
  | some claimedAt => decide (saturatingAdd claimedAt claimTtlMs ≤ now)
  | none => true

/-- The hashes in hexadecimal that the rows are named by. -/
structure Hashing where
  targetHashHex : InvalidationIntent → String
  outboxRowId : (ns commitPosition targetHash : String) → String

/-- The rows, each under its id. -/
structure Outbox where
  rows : OrderedMap String OutboxRow
  ids : ∀ id row, rows.get id = some row → row.id = id

variable {change : OutboxRow → OutboxRow}

namespace Outbox

def empty : Outbox where
  rows := ∅
  ids _ _ h := by cases h

section

variable (outbox : Outbox)

theorem ids_insert (row : OutboxRow) :
    ∀ id found, (outbox.rows.insert row.id row).get id = some found → found.id = id := by
  intro id found h
  rw [get_insert] at h
  split_ifs at h with hid
  · rw [hid, Option.some.inj h]
  · exact outbox.ids id found h

/-- A row under its id. -/
def insertRow (row : OutboxRow) : Outbox where
  rows := outbox.rows.insert row.id row
  ids := outbox.ids_insert row

theorem ids_modify (id : String) (hchg : ∀ row, (change row).id = row.id) :
    ∀ other row, (outbox.rows.modify id change).get other = some row → row.id = other := by
  intro other row h
  rw [get_modify] at h
  split_ifs at h with hid
  · obtain ⟨found, hfound, rfl⟩ := Option.map_eq_some_iff.mp h
    rw [hchg, hid, outbox.ids id found hfound]
  · exact outbox.ids other row h

/-- A row changed in place, under the id it has. -/
def modifyRow (id : String) (change : OutboxRow → OutboxRow)
    (hchange : ∀ row, (change row).id = row.id) : Outbox where
  rows := outbox.rows.modify id change
  ids := outbox.ids_modify id hchange

theorem ids_mapRows (hchg : ∀ row, (change row).id = row.id) :
    ∀ id row, (outbox.rows.mapValues change).get id = some row → row.id = id := by
  intro id row h
  rw [get_mapValues] at h
  obtain ⟨found, hfound, rfl⟩ := Option.map_eq_some_iff.mp h
  rw [hchg, outbox.ids id found hfound]

/-- All rows changed in place. -/
def mapRows (change : OutboxRow → OutboxRow) (hchange : ∀ row, (change row).id = row.id) :
    Outbox where
  rows := outbox.rows.mapValues change
  ids := outbox.ids_mapRows hchange

end

/-! ### Operations -/

/-- A row for an intent that nobody has claimed. -/
def newRow (hashing : Hashing) (ns commitPosition reason : String) (now : ℕ)
    (intent : InvalidationIntent) : OutboxRow where
  id := hashing.outboxRowId ns commitPosition (hashing.targetHashHex intent)
  ns
  commitPosition
  targetHash := hashing.targetHashHex intent
  intent
  reason
  createdAtMs := now
  availableAtMs := now
  claimedAtMs := none
  claimOwner := none
  publishedAtMs := none
  attempts := 0
  state := .pending
  lastError := none

/-- Insert the rows that are not there. -/
def enqueueIntents (outbox : Outbox) (row : InvalidationIntent → OutboxRow) :
    List InvalidationIntent → ℕ × Outbox
  | [] => (0, outbox)
  | intent :: intents =>
    if (outbox.rows.get (row intent).id).isSome then outbox.enqueueIntents row intents
    else
      let rest := (outbox.insertRow (row intent)).enqueueIntents row intents
      (rest.1 + 1, rest.2)

def enqueue (outbox : Outbox) (hashing : Hashing) (ns commitPosition : String)
    (batch : InvalidationIntentBatch) (now : ℕ) : ℕ × Outbox :=
  outbox.enqueueIntents (newRow hashing ns commitPosition batch.reason now) batch.intents

/-- The row can be claimed. -/
def claimable (ns : String) (now claimTtlMs : ℕ) (row : OutboxRow) : Bool :=
  decide (row.ns = ns) && decide (row.state = .pending) && decide (row.availableAtMs ≤ now) &&
    row.claimIsAvailable now claimTtlMs

/-- The order in which rows are claimed. -/
def claimOrder (row : OutboxRow) : ℕ ×ₗ ℕ ×ₗ String :=
  toLex (row.availableAtMs, toLex (row.createdAtMs, row.id))

/-- The ids of the rows that a claim takes. -/
def claimedIds (outbox : Outbox) (ns : String) (limit claimTtlMs now : ℕ) : List String :=
  ((((outbox.rows.rows.map Prod.snd).filter (claimable ns now claimTtlMs)).insertionSort
    fun row other ↦ claimOrder row ≤ claimOrder other).take limit).map (·.id)

/-- The row under the mark of a claim. -/
def claimedRow (owner : String) (now : ℕ) (row : OutboxRow) : OutboxRow :=
  { row with claimedAtMs := some now, claimOwner := some owner }

theorem id_claimedRow (owner : String) (now : ℕ) (row : OutboxRow) :
    (claimedRow owner now row).id = row.id := rfl

/-- Mark the rows with these ids one after another. -/
def claimIds (outbox : Outbox) (owner : String) (now : ℕ) : List String → List OutboxRow × Outbox
  | [] => ([], outbox)
  | id :: ids =>
    match outbox.rows.get id with
    | none => outbox.claimIds owner now ids
    | some row =>
      let rest :=
        (outbox.modifyRow id (claimedRow owner now) (id_claimedRow owner now)).claimIds
        owner now ids
      (claimedRow owner now row :: rest.1, rest.2)

def claim (outbox : Outbox) (ns owner : String) (limit claimTtlMs now : ℕ) :
    List OutboxRow × Outbox :=
  if limit = 0 then ([], outbox)
  else outbox.claimIds owner now (outbox.claimedIds ns limit claimTtlMs now)

/-- The row after its intent was applied. -/
def publishedRow (now : ℕ) (row : OutboxRow) : OutboxRow :=
  { row with
    state := .published
    publishedAtMs := some now
    claimedAtMs := none
    claimOwner := none
    lastError := none }

theorem id_publishedRow (now : ℕ) (row : OutboxRow) : (publishedRow now row).id = row.id := rfl

def markPublished (outbox : Outbox) (ids : List String) (now : ℕ) : Outbox :=
  ids.foldl (fun outbox id ↦ outbox.modifyRow id (publishedRow now) (id_publishedRow now)) outbox

section

variable (error : String) (backoffMs : ℕ) (dead : Bool) (now : ℕ) (row : OutboxRow)

/-- The row after its intent could not be applied. -/
def failedRow : OutboxRow :=
  { row with
    attempts := min (row.attempts + 1) maxHalfWord
    lastError := some error
    claimedAtMs := none
    claimOwner := none
    state := if dead then .dead else .pending
    availableAtMs := if dead then row.availableAtMs else saturatingAdd now backoffMs }

theorem id_failedRow :
    (failedRow error backoffMs dead now row).id = row.id := rfl

end

def markFailed (outbox : Outbox) (id error : String) (backoffMs : ℕ) (dead : Bool) (now : ℕ) :
    Outbox :=
  outbox.modifyRow id (failedRow error backoffMs dead now) (id_failedRow error backoffMs dead now)

/-- The row is dead and of the namespace. -/
def isDeadIn (ns : String) (row : OutboxRow) : Bool :=
  decide (row.ns = ns) && decide (row.state = .dead)

/-- A dead row of the namespace as one that was never tried. -/
def resetRow (ns : String) (now : ℕ) (row : OutboxRow) : OutboxRow :=
  if isDeadIn ns row then
    { row with
      state := .pending
      availableAtMs := now
      claimedAtMs := none
      claimOwner := none
      attempts := 0
      lastError := none }
  else row

theorem id_resetRow (ns : String) (now : ℕ) (row : OutboxRow) :
    (resetRow ns now row).id = row.id := by
  unfold resetRow
  split_ifs <;> rfl

def resetDeadLetters (outbox : Outbox) (ns : String) (now : ℕ) : ℕ × Outbox :=
  ((outbox.rows.rows.map Prod.snd).countP (isDeadIn ns),
    outbox.mapRows (resetRow ns now) (id_resetRow ns now))

end Outbox

/-! ### Status and waits -/

structure OutboxStatus where
  pending : ℕ := 0
  oldestPendingAgeMs : ℕ := 0
  deadLettered : ℕ := 0
  lastPublishedAtMs : Option ℕ := none
  failedAttempts : ℕ := 0
deriving DecidableEq

namespace Outbox

/-- The later of two times, if there is one. -/
def latest : Option ℕ → Option ℕ → Option ℕ
  | some current, some candidate => some (max current candidate)
  | none, candidate => candidate
  | current, none => current

/-- The rows of a namespace, or of one commit in it. -/
def matching (outbox : Outbox) (ns : String) (commitPosition : Option String) : List OutboxRow :=
  (outbox.rows.rows.map Prod.snd).filter fun row ↦
    decide (row.ns = ns) && commitPosition.all fun position ↦ decide (row.commitPosition = position)

def statusMatching (outbox : Outbox) (ns : String) (commitPosition : Option String) (now : ℕ) :
    OutboxStatus :=
  let rows := outbox.matching ns commitPosition
  let pending := rows.filter fun row ↦ decide (row.state = .pending)
  { pending := pending.length
    oldestPendingAgeMs := ((pending.map (·.createdAtMs)).min?.map (now - ·)).getD 0
    deadLettered := rows.countP fun row ↦ decide (row.state = .dead)
    lastPublishedAtMs :=
      (rows.filter fun row ↦ decide (row.state = .published)).foldl
        (fun last row ↦ latest last row.publishedAtMs) none
    failedAttempts := (rows.map (·.attempts)).sum }

def status (outbox : Outbox) (ns : String) (now : ℕ) : OutboxStatus :=
  outbox.statusMatching ns none now

def statusForCommit (outbox : Outbox) (ns commitPosition : String) (now : ℕ) : OutboxStatus :=
  outbox.statusMatching ns (some commitPosition) now

end Outbox

inductive ConsistencyMode where
  | noWait
  | local
  | bestEffort
deriving DecidableEq

structure InvalidationWaitOutcome where
  mode : ConsistencyMode
  satisfied : Bool
  degraded : Bool
  timedOut : Bool
  pending : ℕ
  elapsedMs : ℕ
deriving DecidableEq

structure InvalidationWait where
  mode : ConsistencyMode
  timeoutMs : ℕ

/-- One turn of a wait, so long after its start: its outcome, or none to look again later. -/
def InvalidationWait.poll (wait : InvalidationWait) (status : OutboxStatus) (elapsedMs : ℕ) :
    Option InvalidationWaitOutcome :=
  let outcome : InvalidationWaitOutcome :=
    { mode := wait.mode, satisfied := true, degraded := false, timedOut := false, pending := 0,
      elapsedMs }
  if wait.mode = .noWait then some outcome
  else if 0 < status.deadLettered then
    some { outcome with satisfied := false, degraded := true, pending := status.pending }
  else if status.pending = 0 then some outcome
  else if wait.timeoutMs ≤ elapsedMs then
    some { outcome with
      satisfied := false, degraded := true, timedOut := true, pending := status.pending }
  else none

/-! ### What the operations do to a row -/

namespace Outbox

variable {outbox : Outbox} {id : String} {row : OutboxRow} {owner : String} {now : ℕ}
  {limit claimTtlMs : ℕ} {claimed : OutboxRow} {ns : String}

theorem get_modifyRow (outbox : Outbox) (id other : String)
    (hchg : ∀ row, (change row).id = row.id) :
    (outbox.modifyRow id change hchg).rows.get other =
      if other = id then (outbox.rows.get other).map change else outbox.rows.get other := by
  refine (get_modify ..).trans ?_
  split_ifs with h
  · rw [h]
  · rfl

theorem get_claimIds (outbox : Outbox) (owner : String) (now : ℕ) (ids : List String)
    (id : String) :
    (outbox.claimIds owner now ids).2.rows.get id =
      if id ∈ ids then (outbox.rows.get id).map (claimedRow owner now) else outbox.rows.get id := by
  induction ids generalizing outbox with
  | nil => rfl
  | cons first ids ih =>
    unfold claimIds
    cases hfirst : outbox.rows.get first with
    | none =>
      rw [ih]
      by_cases hid : id = first
      · rw [if_pos (mem_cons.mpr (.inl hid)), hid, hfirst]
        exact ite_self _
      · simp only [mem_cons, hid, false_or]
    | some row =>
      dsimp only
      rw [ih, get_modifyRow]
      by_cases hid : id = first
      · rw [if_pos (mem_cons.mpr (.inl hid)), if_pos hid, hid, hfirst]
        exact ite_self _
      · simp only [mem_cons, hid, false_or, if_false]

/-- The rows handed out are rows of the outbox under the mark of the claim. -/
theorem mem_claimIds {ids : List String} (h : claimed ∈ (outbox.claimIds owner now ids).1) :
    claimed.id ∈ ids ∧ ∃ row, outbox.rows.get claimed.id = some row ∧
      claimed = claimedRow owner now row := by
  induction ids generalizing outbox with
  | nil => cases h
  | cons first ids ih =>
    unfold claimIds at h
    cases hfirst : outbox.rows.get first with
    | none =>
      rw [hfirst] at h
      obtain ⟨hid, hrow⟩ := ih h
      exact ⟨mem_cons_of_mem first hid, hrow⟩
    | some row =>
      rw [hfirst] at h
      have hrowId := outbox.ids first row hfirst
      rcases mem_cons.mp h with rfl | hrest
      · refine ⟨mem_cons.mpr (.inl hrowId), row, ?_, rfl⟩
        change outbox.rows.get row.id = some row
        rw [hrowId, hfirst]
      · obtain ⟨hid, found, hfound, hclaim⟩ := ih hrest
        refine ⟨mem_cons_of_mem first hid, ?_⟩
        rw [get_modifyRow] at hfound
        split_ifs at hfound
        · obtain ⟨stored, hsto, rfl⟩ := Option.map_eq_some_iff.mp hfound
          exact ⟨stored, hsto, hclaim⟩
        · exact ⟨found, hfound, hclaim⟩

theorem claimable_of_mem_claimedIds (h : id ∈ outbox.claimedIds ns limit claimTtlMs now) :
    ∃ row, outbox.rows.get id = some row ∧ claimable ns now claimTtlMs row = true := by
  obtain ⟨row, hrow, rfl⟩ := mem_map.mp h
  have hsort := mem_of_mem_take hrow
  rw [mem_insertionSort, mem_filter, mem_map] at hsort
  obtain ⟨⟨⟨key, stored⟩, hsto, rfl⟩, hclaim⟩ := hsort
  have hget := (get_eq_some_iff _).mpr hsto
  refine ⟨stored, ?_, hclaim⟩
  rwa [outbox.ids key stored hget]

/-- A claim marks rows that can be claimed, and leaves the others. -/
theorem get_claim (outbox : Outbox) (ns owner : String) (limit claimTtlMs now : ℕ) (id : String) :
    (outbox.claim ns owner limit claimTtlMs now).2.rows.get id = outbox.rows.get id ∨
      ∃ row, outbox.rows.get id = some row ∧ claimable ns now claimTtlMs row = true ∧
        (outbox.claim ns owner limit claimTtlMs now).2.rows.get id =
          some (claimedRow owner now row) := by
  unfold claim
  split_ifs
  · exact .inl rfl
  · rw [get_claimIds]
    split_ifs with hid
    · obtain ⟨row, hrow, hclaim⟩ := claimable_of_mem_claimedIds hid
      rw [hrow]
      exact .inr ⟨row, rfl, hclaim, rfl⟩
    · exact .inl rfl

/-- What a claim hands out is as the outbox has it afterwards. -/
theorem mem_claimed (h : claimed ∈ (outbox.claim ns owner limit claimTtlMs now).1) :
    claimed.claimedAtMs = some now ∧
      (outbox.claim ns owner limit claimTtlMs now).2.rows.get claimed.id = some claimed := by
  unfold claim at h ⊢
  split_ifs at h ⊢
  · cases h
  · obtain ⟨hid, row, hrow, hclaim⟩ := mem_claimIds h
    refine ⟨congrArg OutboxRow.claimedAtMs hclaim, ?_⟩
    rw [get_claimIds, if_pos hid, hrow, Option.map_some, ← hclaim]

theorem get_enqueueIntents (outbox : Outbox) (row : InvalidationIntent → OutboxRow)
    (intents : List InvalidationIntent) (id : String) :
    (outbox.enqueueIntents row intents).2.rows.get id = outbox.rows.get id ∨
      outbox.rows.get id = none ∧
        ∃ intent, (outbox.enqueueIntents row intents).2.rows.get id = some (row intent) := by
  induction intents generalizing outbox with
  | nil => exact .inl rfl
  | cons intent intents ih =>
    unfold enqueueIntents
    split_ifs with hfound
    · exact ih outbox
    · have hins : (outbox.insertRow (row intent)).rows.get id =
          if id = (row intent).id then some (row intent) else outbox.rows.get id :=
        get_insert ..
      rcases ih (outbox.insertRow (row intent)) with hrest | ⟨hnone, hrest⟩
      · rw [hrest, hins]
        split_ifs with hid
        · refine .inr ⟨?_, intent, rfl⟩
          rw [hid]
          exact Option.not_isSome_iff_eq_none.mp hfound
        · exact .inl rfl
      · rw [hins] at hnone
        split_ifs at hnone
        exact .inr ⟨hnone, hrest⟩

theorem get_resetDeadLetters (outbox : Outbox) (ns : String) (now : ℕ) (id : String) :
    (outbox.resetDeadLetters ns now).2.rows.get id = (outbox.rows.get id).map (resetRow ns now) :=
  get_mapValues _ _ _

/-! ### When a wait is satisfied -/

/-- All rows of a commit are published. -/
def CommitPublished (outbox : Outbox) (ns commitPosition : String) : Prop :=
  ∀ id row, outbox.rows.get id = some row → row.ns = ns → row.commitPosition = commitPosition →
    row.state = .published

theorem mem_matching_iff {ns commitPosition : String} :
    row ∈ outbox.matching ns (some commitPosition) ↔
      outbox.rows.get row.id = some row ∧ row.ns = ns ∧ row.commitPosition = commitPosition := by
  rw [matching, mem_filter, mem_map]
  simp only [Option.all_some, Bool.and_eq_true, decide_eq_true_iff]
  refine and_congr_left fun _ ↦ ⟨?_, fun h ↦ ⟨(row.id, row), (get_eq_some_iff _).mp h, rfl⟩⟩
  rintro ⟨⟨key, stored⟩, hsto, rfl⟩
  have hget := (get_eq_some_iff _).mpr hsto
  rwa [outbox.ids key stored hget]

theorem satisfied_poll_iff {wait : InvalidationWait} (hmode : wait.mode ≠ .noWait) (outbox : Outbox)
    (ns commitPosition : String) (now elapsedMs : ℕ) :
    (wait.poll (outbox.statusForCommit ns commitPosition now) elapsedMs).any (·.satisfied) = true ↔
      outbox.CommitPublished ns commitPosition := by
  have hpub : outbox.CommitPublished ns commitPosition ↔
      ∀ row ∈ outbox.matching ns (some commitPosition), row.state = .published := by
    constructor
    · intro h row hrow
      obtain ⟨hget, hns, hcom⟩ := mem_matching_iff.mp hrow
      exact h row.id row hget hns hcom
    · intro h id row hget hns hcom
      refine h row (mem_matching_iff.mpr ⟨?_, hns, hcom⟩)
      rwa [outbox.ids id row hget]
  have hsplit : outbox.CommitPublished ns commitPosition ↔
      (outbox.statusForCommit ns commitPosition now).deadLettered = 0 ∧
        (outbox.statusForCommit ns commitPosition now).pending = 0 := by
    simp only [hpub, statusForCommit, statusMatching, countP_eq_zero, length_eq_zero_iff,
      filter_eq_nil_iff, decide_eq_true_iff, ← forall₂_and]
    refine forall₂_congr fun row _ ↦ ?_
    cases row.state <;> simp
  rw [hsplit, InvalidationWait.poll, if_neg hmode]
  split_ifs with hchars hnone htimeout
  · exact iff_of_false (by simp) fun h ↦ hchars.ne' h.1
  · exact iff_of_true (by simp) ⟨Nat.eq_zero_of_not_pos hchars, hnone⟩
  · exact iff_of_false (by simp) fun h ↦ hnone h.2
  · exact iff_of_false (by simp) fun h ↦ hnone h.2

end Outbox

/-! ### Keys and tags -/

def escapeChar : Char → List Char
  | '%' => ['%', '2', '5']
  | ':' => ['%', '3', 'A']
  | ch => [ch]

def escapeSegment (segment : String) : String :=
  .ofList (segment.toList.flatMap escapeChar)

structure CacheKeyBuilder where
  segments : List String := []

namespace CacheKeyBuilder

def new : CacheKeyBuilder := {}

def segment (builder : CacheKeyBuilder) (segment : String) : CacheKeyBuilder :=
  { segments := builder.segments ++ [escapeSegment segment] }

def fromSegment (segment : String) : CacheKeyBuilder := new.segment segment

/-- All segments of a list, one after the other. -/
def extend (builder : CacheKeyBuilder) (segments : List String) : CacheKeyBuilder :=
  { segments := builder.segments ++ segments.map escapeSegment }

def buildString (builder : CacheKeyBuilder) : String :=
  .ofList ([':'].intercalate (builder.segments.map String.toList))

end CacheKeyBuilder

open CacheKeyBuilder

def entityTag (entity key : String) : String := ((new.segment entity).segment key).buildString

def collectionTag (collection : String) : String := (fromSegment collection).buildString

theorem escapeChar_of_ne {ch : Char} (hpercent : ch ≠ '%') (hcolon : ch ≠ ':') :
    escapeChar ch = [ch] := by
  unfold escapeChar
  split <;> simp_all

/-- The text that a segment was escaped from. -/
def unescape : List Char → List Char
  | [] => []
  | '%' :: '2' :: '5' :: rest => '%' :: unescape rest
  | '%' :: '3' :: 'A' :: rest => ':' :: unescape rest
  | ch :: rest => ch :: unescape rest

theorem unescape_flatMap (text : List Char) : unescape (text.flatMap escapeChar) = text := by
  induction text with
  | nil => rfl
  | cons ch text ih =>
    by_cases hpercent : ch = '%'
    · subst hpercent
      simp [escapeChar, unescape, ih]
    · by_cases hcolon : ch = ':'
      · subst hcolon
        simp [escapeChar, unescape, ih]
      · simp [escapeChar_of_ne hpercent hcolon, unescape, hpercent, ih]

theorem colon_notMem_escapeSegment (segment : String) : ':' ∉ (escapeSegment segment).toList := by
  rw [escapeSegment, String.toList_ofList, mem_flatMap]
  rintro ⟨ch, _, hcolon⟩
  by_cases hpercent : ch = '%'
  · simp [hpercent, escapeChar] at hcolon
  · by_cases hch : ch = ':'
    · simp [hch, escapeChar] at hcolon
    · rw [escapeChar_of_ne hpercent hch, mem_singleton] at hcolon
      exact hch hcolon.symm

theorem escapeSegment_injective : Function.Injective escapeSegment := fun _ _ h ↦
  String.toList_inj.mp
    ((Function.LeftInverse.injective unescape_flatMap) (String.ofList_injective h))

/-- Lists of segments that are not empty build different keys, so tags of entities and of
collections are those of the same names or differ. -/
theorem buildString_injOn :
    Set.InjOn (fun segments ↦ (new.extend segments).buildString) {segments | segments ≠ []} ∧
      (∀ entity key collection, entityTag entity key ≠ collectionTag collection) ∧
      (∀ entity key entity' key',
        entityTag entity key = entityTag entity' key' ↔ entity = entity' ∧ key = key') ∧
      ∀ collection collection', collectionTag collection = collectionTag collection' ↔
        collection = collection' := by
  have hsplit (segments : List String) (hne : segments ≠ []) :
      (new.extend segments).buildString.toList.splitOn ':' =
        segments.map fun segment ↦ (escapeSegment segment).toList := by
    rw [buildString, String.toList_ofList, splitOn_intercalate]
    · simp [extend, new]
    · simpa [extend, new] using fun segment _ ↦ colon_notMem_escapeSegment segment
    · simpa [extend, new] using hne
  have hkey {segments others : List String} (hne : segments ≠ []) (hne' : others ≠ []) :
      (new.extend segments).buildString = (new.extend others).buildString ↔ segments = others := by
    refine ⟨fun h ↦ ?_, fun h ↦ by rw [h]⟩
    have hmap := hsplit others hne'
    rw [← h, hsplit segments hne] at hmap
    exact (map_injective_iff.mpr fun _ _ h ↦ escapeSegment_injective (String.toList_inj.mp h)) hmap
  have hentity (entity key : String) : entityTag entity key =
    (new.extend [entity, key]).buildString := rfl
  have hcollection (collection : String) :
      collectionTag collection = (new.extend [collection]).buildString := rfl
  refine ⟨fun _ hne _ hne' ↦ (hkey hne hne').mp, fun entity key collection ↦ ?_, ?_, ?_⟩
  · rw [hentity, hcollection, ne_eq, hkey (cons_ne_nil _ _) (cons_ne_nil _ _)]
    simp
  · intro entity key entity' key'
    rw [hentity, hentity, hkey (cons_ne_nil _ _) (cons_ne_nil _ _)]
    simp
  · intro collection collection'
    rw [hcollection, hcollection, hkey (cons_ne_nil _ _) (cons_ne_nil _ _)]
    simp

end HydraCache.Db
