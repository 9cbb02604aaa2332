import HydraCache.Lib.Bytes
import HydraCache.Lib.Consecutive
import HydraCache.Lib.Run
import HydraCache.Lib.Text

/-!
# The in-memory log store

A log store keeps what a raft node must not lose: the hard state, the configuration, the last
snapshot, the retained entries and how far they were applied. Eight operations change it
(`RaftLogOp`); the raft library reads it through `entriesIn`, `term`, `firstIndex` and `lastIndex`.

The library relies on a log without holes. Four operations cut the log, at the end (`append`,
`truncateSuffix`) or at the front (`saveSnapshot`, `compactTo`), and a cut leaves a consecutive log
consecutive. So along every run whose appended entries are consecutive among themselves, the
retained entries are consecutive, and every index above the snapshot from the first retained one to
the last is read back (`retained_of_run`). The range does not start at the snapshot: a snapshot that
preserves a shorter tail, and a compaction beyond the snapshot, drop the entries next to it
(`retained_not_from_snapshot`). And `append` looks only at the first index it is given, so that it
accepts entries with a hole among them.

The snapshot is handed out with at least the index that is asked for, so it is one of those saved in
some cases only (`snapshotAt_saved_iff`). What is read stops at a limit of size
(`limitEntriesSize_longest`).

Scope. The fault injection of the tests is left out. Where the source panics, the read returns
`ReadError.panicked`.
-/

set_option autoImplicit false

namespace HydraCache.Raft

open Lib

/-! ### Messages of the raft library -/

inductive EntryType where
  | normal
  | confChange
  | confChangeV2
deriving DecidableEq

structure Entry where
  entryType : EntryType := .normal
  term : ℕ := 0
  index : ℕ := 0
  data : Bytes := []
  context : Bytes := []
  syncLog : Bool := false
deriving DecidableEq

structure HardState where
  term : ℕ := 0
  vote : ℕ := 0
  commit : ℕ := 0
deriving DecidableEq

structure ConfState where
  voters : List ℕ := []
  learners : List ℕ := []
  votersOutgoing : List ℕ := []
  learnersNext : List ℕ := []
  autoLeave : Bool := false
deriving DecidableEq

structure SnapshotMetadata where
  confState : ConfState := {}
  index : ℕ := 0
  term : ℕ := 0
deriving DecidableEq

structure Snapshot where
  data : Bytes := []
  metadata : SnapshotMetadata := {}
deriving DecidableEq

/-! ### The store -/

structure RaftStoreError where
  message : String
deriving DecidableEq

structure InMemoryRaftLogStore where
  hardState : HardState := {}
  confState : ConfState := {}
  entries : List Entry := []
  snapshot : Snapshot := {}
  appliedIndex : ℕ := 0
  snapshotUnavailableOnce : Bool := false
deriving DecidableEq

/-- The operations that change a log store. -/
inductive RaftLogOp where
  | saveHardState (hardState : HardState)
  | saveConfState (confState : ConfState)
  | append (entries : List Entry)
  | truncateSuffix (fromIndex : ℕ)
  | saveSnapshot (snapshot : Snapshot) (preserveLogEntries : ℕ)
  | compactTo (index : ℕ)
  | markApplied (index : ℕ)
  | setCommit (commit : ℕ)
deriving DecidableEq

variable {entries : List Entry} {index : ℕ}

namespace InMemoryRaftLogStore

section

variable (store : InMemoryRaftLogStore)

def firstIndex : ℕ :=
  match store.entries.head? with
  | some entry => entry.index
  | none => saturatingSucc store.snapshot.metadata.index

def lastIndex : ℕ :=
  match store.entries.getLast? with
  | some entry => entry.index
  | none => store.snapshot.metadata.index

def saveHardState (hardState : HardState) : InMemoryRaftLogStore :=
  { store with hardState }

def saveConfState (confState : ConfState) : InMemoryRaftLogStore :=
  { store with confState }

/-- Append entries over whatever stands from the first of them on. -/
def append (entries : List Entry) : Except RaftStoreError InMemoryRaftLogStore :=
  match entries.head? with
  | none => .ok store
  | some entry =>
    if entry.index < store.firstIndex then
      .error ⟨"append would overwrite compacted entries: first " ++ decimal store.firstIndex ++
        ", append " ++ decimal entry.index⟩
    else if saturatingSucc store.lastIndex < entry.index then
      .error ⟨"append leaves a gap: last " ++ decimal store.lastIndex ++ ", append " ++
        decimal entry.index⟩
    else
      .ok { store with
        entries := store.entries.filter (fun kept ↦ kept.index < entry.index) ++ entries }

def truncateSuffix (fromIndex : ℕ) : InMemoryRaftLogStore :=
  { store with entries := store.entries.filter fun kept ↦ kept.index < fromIndex }

/-- The entries above the snapshot, of which only the last `preserveLogEntries` are kept. -/
def retainedEntriesAfterSnapshot (snapshotIndex : ℕ) (preserveLogEntries : ℕ) : List Entry :=
  let above := store.entries.filter fun kept ↦ snapshotIndex < kept.index
  above.drop (above.length - preserveLogEntries)

def installSnapshotAfterPersist (snapshot : Snapshot) (retained : List Entry) :
    InMemoryRaftLogStore :=
  { store with
    snapshot
    confState := snapshot.metadata.confState
    hardState :=
      { store.hardState with
        term := max store.hardState.term snapshot.metadata.term
        commit := max store.hardState.commit snapshot.metadata.index }
    entries := retained }

def saveSnapshot (snapshot : Snapshot) (preserveLogEntries : ℕ) : InMemoryRaftLogStore :=
  store.installSnapshotAfterPersist snapshot
    (store.retainedEntriesAfterSnapshot snapshot.metadata.index preserveLogEntries)

/-- Drop the entries before an index that was applied. -/
def compactTo (index : ℕ) : Except RaftStoreError InMemoryRaftLogStore :=
  if store.appliedIndex < index then
    .error ⟨"compact index " ++ decimal index ++ " is past applied index " ++
      decimal store.appliedIndex⟩
  else
    .ok { store with entries := store.entries.filter fun kept ↦ index ≤ kept.index }

def markApplied (index : ℕ) : InMemoryRaftLogStore :=
  { store with appliedIndex := max store.appliedIndex index }

def setCommit (commit : ℕ) : InMemoryRaftLogStore :=
  { store with hardState := { store.hardState with commit } }

/-- One operation. A refused operation changes nothing. -/
def apply : RaftLogOp → Except RaftStoreError InMemoryRaftLogStore
  | .saveHardState hardState => .ok (store.saveHardState hardState)
  | .saveConfState confState => .ok (store.saveConfState confState)
  | .append entries => store.append entries
  | .truncateSuffix fromIndex => .ok (store.truncateSuffix fromIndex)
  | .saveSnapshot snapshot preserve => .ok (store.saveSnapshot snapshot preserve)
  | .compactTo index => store.compactTo index
  | .markApplied index => .ok (store.markApplied index)
  | .setCommit commit => .ok (store.setCommit commit)

/-- The step of a run in which every operation succeeds. -/
def step (op : RaftLogOp) : Option InMemoryRaftLogStore :=
  (store.apply op).toOption

/-! ### Reading the log -/

inductive ReadError where
  | compacted
  | unavailable
  | snapshotTemporarilyUnavailable
  | panicked (message : String)
deriving DecidableEq

/-- How many entries stay below the size, from `total` on. -/
def keptBySize (maxSize : ℕ) : ℕ → List Entry → ℕ
  | _, [] => 0
  | total, entry :: entries =>
    let total := saturatingAdd total entry.data.length
    if maxSize < total then 0 else keptBySize maxSize total entries + 1

/-- The entries up to a total size, and one in any case. -/
def limitEntriesSize (entries : List Entry) (maxSize : ℕ) : List Entry :=
  if entries.length ≤ 1 then entries
  else entries.take (max (keptBySize maxSize 0 entries) 1)

/-- The entries from `low` on and before `high`. -/
def entriesIn (low high : ℕ) (maxSize : Option ℕ) : Except ReadError (List Entry) :=
  if low < store.firstIndex then .error .compacted
  else if saturatingSucc store.lastIndex < high then
    .error
      (.panicked ("index out of bound (last: " ++ decimal (store.lastIndex + 1) ++ ", high: " ++
      decimal high ++ ")"))
  else if high < store.firstIndex then .error .unavailable
  else if high - store.firstIndex < low - store.firstIndex ∨
      store.entries.length < high - store.firstIndex then .error .unavailable
  else
    let found := (store.entries.take (high - store.firstIndex)).drop (low - store.firstIndex)
    .ok (maxSize.elim found (limitEntriesSize found))

def term (index : ℕ) : Except ReadError ℕ :=
  if index = 0 then .ok 0
  else if index = store.snapshot.metadata.index then .ok store.snapshot.metadata.term
  else if index < store.firstIndex then .error .compacted
  else if store.lastIndex < index then .error .unavailable
  else
    match store.entries.find? (·.index = index) with
    | some entry => .ok entry.term
    | none => .error .unavailable

/-- The snapshot, under a higher index where one is asked for. -/
def snapshotAt (requestIndex : ℕ) : Except ReadError Snapshot × InMemoryRaftLogStore :=
  if store.snapshotUnavailableOnce then
    (.error .snapshotTemporarilyUnavailable, { store with snapshotUnavailableOnce := false })
  else
    (.ok { store.snapshot with
      metadata := { store.snapshot.metadata with
        index := max store.snapshot.metadata.index requestIndex } }, store)

/-! ### The log has no hole -/

/-- The retained entries stand at consecutive indexes. -/
def Contiguous : Prop :=
  ConsecutiveFrom Entry.index store.firstIndex store.entries

end

variable {store next : InMemoryRaftLogStore}

theorem contiguous_of_consecutiveFrom (first : ℕ)
    (h : ConsecutiveFrom Entry.index first store.entries) : store.Contiguous := by
  unfold Contiguous firstIndex
  cases hents : store.entries with
  | nil => trivial
  | cons entry entries =>
    rw [hents] at h
    refine ⟨rfl, ?_⟩
    change ConsecutiveFrom Entry.index (entry.index + 1) entries
    exact h.1.symm ▸ h.2

theorem lastIndex_succ (h : store.Contiguous) (hne : store.entries ≠ []) :
    store.lastIndex + 1 = store.firstIndex + store.entries.length := by
  obtain ⟨entry, hentry⟩ := Option.ne_none_iff_exists'.mp (mt List.getLast?_eq_none_iff.mp hne)
  rw [← h.position_getLast? hentry, lastIndex, hentry]

/-- What is asked for from the first index on and no further than the last is there. -/
theorem le_firstIndex_add_length (h : store.Contiguous) {high : ℕ}
    (hhigh : high ≤ saturatingSucc store.lastIndex) :
    high ≤ store.firstIndex + store.entries.length := by
  by_cases hne : store.entries = []
  · have hfirst : store.firstIndex = saturatingSucc store.snapshot.metadata.index := by
      rw [firstIndex, hne]
      rfl
    have hlast : store.lastIndex = store.snapshot.metadata.index := by
      rw [lastIndex, hne]
      rfl
    rw [hlast, ← hfirst] at hhigh
    exact Nat.le_add_right_of_le hhigh
  · exact (hhigh.trans (saturatingSucc_le _)).trans (lastIndex_succ h hne).le

theorem append_eq_ok (h : store.append entries = .ok next) :
    (entries = [] ∧ next = store) ∨
      ∃ entry, entries.head? = some entry ∧ store.firstIndex ≤ entry.index ∧
        entry.index ≤ saturatingSucc store.lastIndex ∧
        next = { store with
          entries := store.entries.filter (fun kept ↦ kept.index < entry.index) ++ entries } := by
  unfold append at h
  cases hhead : entries.head? with
  | none =>
    rw [hhead] at h
    cases h
    exact .inl ⟨List.head?_eq_none_iff.mp hhead, rfl⟩
  | some entry =>
    rw [hhead] at h
    dsimp only at h
    split_ifs at h with hcompacted hgap
    cases h
    exact .inr ⟨entry, rfl, Nat.le_of_not_lt hcompacted, Nat.le_of_not_lt hgap, rfl⟩

theorem compactTo_eq_ok (h : store.compactTo index = .ok next) :
    index ≤ store.appliedIndex ∧
      next = { store with entries := store.entries.filter fun kept ↦ index ≤ kept.index } := by
  unfold compactTo at h
  split_ifs at h with happ
  cases h
  exact ⟨Nat.le_of_not_lt happ, rfl⟩

section

variable (h : store.Contiguous)
include h

theorem contiguous_truncateSuffix (fromIndex : ℕ) :
    (store.truncateSuffix fromIndex).Contiguous := by
  refine contiguous_of_consecutiveFrom store.firstIndex ?_
  change ConsecutiveFrom _ _ (store.entries.filter _)
  rw [h.filter_lt]
  exact h.take _

theorem contiguous_append {first : ℕ} (hents : ConsecutiveFrom Entry.index first entries)
    (happend : store.append entries = .ok next) : next.Contiguous := by
  rcases append_eq_ok happend with ⟨-, rfl⟩ | ⟨entry, hhead, hfirst, hlast, rfl⟩
  · exact h
  · refine contiguous_of_consecutiveFrom store.firstIndex ?_
    rw [h.filter_lt]
    refine (h.take _).append ?_
    -- the cut falls where the new entries start
    have hcut : store.firstIndex + (store.entries.take (entry.index - store.firstIndex)).length =
        entry.index := by
      have hle := le_firstIndex_add_length h hlast
      rw [List.length_take, Nat.min_eq_left (Nat.sub_le_iff_le_add'.mpr hle)]
      exact Nat.add_sub_cancel' hfirst
    obtain ⟨rest, rfl⟩ := List.head?_eq_some_iff.mp hhead
    rwa [hcut, hents.1]

theorem contiguous_saveSnapshot (snapshot : Snapshot) (preserve : ℕ) :
    (store.saveSnapshot snapshot preserve).Contiguous := by
  have habove : store.entries.filter (fun kept ↦ snapshot.metadata.index < kept.index) =
      store.entries.drop (snapshot.metadata.index + 1 - store.firstIndex) :=
    h.filter_ge (snapshot.metadata.index + 1)
  have hkept := (h.drop (snapshot.metadata.index + 1 - store.firstIndex)).drop
    ((store.entries.drop (snapshot.metadata.index + 1 - store.firstIndex)).length - preserve)
  rw [← habove] at hkept
  exact contiguous_of_consecutiveFrom _ hkept

theorem contiguous_compactTo (hcompact : store.compactTo index = .ok next) : next.Contiguous := by
  obtain ⟨-, rfl⟩ := compactTo_eq_ok hcompact
  refine contiguous_of_consecutiveFrom (store.firstIndex + (index - store.firstIndex)) ?_
  rw [h.filter_ge]
  exact h.drop _

end

theorem step_eq_some_iff {op : RaftLogOp} :
    store.step op = some next ↔ store.apply op = .ok next := by
  unfold step
  cases store.apply op <;> simp [Except.toOption]

end InMemoryRaftLogStore

/-- Entries that are appended are consecutive among themselves. -/
def RaftLogOp.Consecutive : RaftLogOp → Prop
  | .append entries => ∃ first, ConsecutiveFrom Entry.index first entries
  | _ => True

namespace InMemoryRaftLogStore

variable {store next : InMemoryRaftLogStore}

theorem contiguous_apply {op : RaftLogOp} (hop : op.Consecutive) (h : store.Contiguous)
    (happly : store.apply op = .ok next) : next.Contiguous := by
  cases op with
  | append entries =>
    obtain ⟨first, hents⟩ := hop
    exact contiguous_append h hents happly
  | truncateSuffix fromIndex =>
    cases happly
    exact contiguous_truncateSuffix h fromIndex
  | saveSnapshot snapshot preserve =>
    cases happly
    exact contiguous_saveSnapshot h snapshot preserve
  | compactTo index => exact contiguous_compactTo h happly
  | _ =>
    -- the others leave the entries and the snapshot alone
    cases happly
    exact h

theorem contiguous_run {ops : List RaftLogOp} (hops : ∀ op ∈ ops, op.Consecutive)
    (h : store.Contiguous) (hrun : run step store ops = some next) : next.Contiguous := by
  refine run_invariant (C := fun _ op ↦ op.Consecutive) (I := Contiguous) ?_ h
    (along_of_forall_mem (fun op hop _ ↦ hops op hop) store) hrun
  intro s op s' hop hs hstep
  exact contiguous_apply hop hs (step_eq_some_iff.mp hstep)

theorem entriesIn_eq_ok (h : store.Contiguous) {low high : ℕ} (hlow : store.firstIndex ≤ low)
    (hle : low ≤ high) (hhigh : high ≤ saturatingSucc store.lastIndex) (maxSize : Option ℕ) :
    store.entriesIn low high maxSize =
      let found := store.entries.filter fun kept ↦ low ≤ kept.index ∧ kept.index < high
      .ok (maxSize.elim found (limitEntriesSize found)) := by
  have hlen := le_firstIndex_add_length h hhigh
  have hrange : ¬ (high - store.firstIndex < low - store.firstIndex ∨
      store.entries.length < high - store.firstIndex) := by omega
  rw [entriesIn, if_neg hlow.not_gt, if_neg hhigh.not_gt, if_neg (hlow.trans hle).not_gt,
    if_neg hrange, h.drop_take_eq_filter]

/-- Every index above the snapshot, from the first retained one to the last, is retained, and its
term is that of its entry. -/
theorem exists_entry (h : store.Contiguous) (hsnap : store.snapshot.metadata.index < index)
    (hfirst : store.firstIndex ≤ index) (hlast : index ≤ store.lastIndex) :
    ∃ entry ∈ store.entries, entry.index = index ∧ store.term index = .ok entry.term := by
  have hne : store.entries ≠ [] := by
    rintro hnil
    have hlastIndex : store.lastIndex = store.snapshot.metadata.index := by
      rw [lastIndex, hnil]
      rfl
    omega
  have hreach := lastIndex_succ h hne
  obtain ⟨witness, hwitness, hindex⟩ := h.exists_mem hfirst (by omega)
  obtain ⟨entry, hfind⟩ : ∃ entry, store.entries.find? (·.index = index) = some entry := by
    rw [← Option.isSome_iff_exists, List.find?_isSome]
    exact ⟨witness, hwitness, decide_eq_true hindex⟩
  have hentry := List.find?_some hfind
  refine ⟨entry, List.mem_of_find?_eq_some hfind, of_decide_eq_true hentry, ?_⟩
  rw [term, if_neg (Nat.ne_zero_of_lt hsnap), if_neg hsnap.ne', if_neg hfirst.not_gt,
    if_neg hlast.not_gt, hfind]

/-- Assumes: a run of successful operations on an empty store in which the entries of each append
are consecutive. The retained entries are consecutive. Every index above the snapshot and not before
the first retained one, up to the last, is retained, and its term is that of its entry. Reading
between two bounds of that range gives exactly the entries between them, in order. -/
theorem retained_of_run {ops : List RaftLogOp} {store : InMemoryRaftLogStore}
    (hops : ∀ op ∈ ops, op.Consecutive) (hrun : run step {} ops = some store) :
    ConsecutiveFrom Entry.index store.firstIndex store.entries ∧
      (∀ index, store.snapshot.metadata.index < index → store.firstIndex ≤ index →
        index ≤ store.lastIndex →
          ∃ entry ∈ store.entries, entry.index = index ∧ store.term index = .ok entry.term) ∧
      ∀ low high, store.firstIndex ≤ low → low ≤ high → high ≤ saturatingSucc store.lastIndex →
        store.entriesIn low high none =
          .ok (store.entries.filter fun kept ↦ low ≤ kept.index ∧ kept.index < high) := by
  have hempty : Contiguous {} := trivial
  have h : store.Contiguous := contiguous_run hops hempty hrun
  refine ⟨h, fun index hsnap hfirst hlast ↦ exists_entry h hsnap hfirst hlast, ?_⟩
  intro low high hlow hle hhigh
  exact entriesIn_eq_ok h hlow hle hhigh none

/-- Four entries, then a snapshot at the first that preserves two of the other three. -/
def shorterTail : List RaftLogOp :=
  [.append [{ index := 1 }, { index := 2 }, { index := 3 }, { index := 4, term := 7 }],
    .saveSnapshot { metadata := { index := 1 } } 2]

theorem retained_of_shorterTail :
    ∃ store, run step {} shorterTail = some store ∧
      store.entriesIn 3 5 none = .ok [{ index := 3 }, { index := 4, term := 7 }] ∧
      ∃ entry ∈ store.entries, entry.index = 4 ∧ store.term 4 = .ok entry.term := by
  have hops : ∀ op ∈ shorterTail, op.Consecutive := by
    intro op hop
    rcases List.mem_pair.mp hop with rfl | rfl
    · exact ⟨1, rfl, rfl, rfl, rfl, trivial⟩
    · trivial
  refine ⟨_, rfl, rfl, ?_⟩
  exact (retained_of_run hops rfl).2.1 4 (by decide) (by decide) (by decide)

/-- The entry next to the snapshot is not retained when the snapshot preserves a shorter tail, nor
when the log is compacted beyond the snapshot; and an append with a hole among its entries is
accepted, so that the log has one. -/
theorem retained_not_from_snapshot :
    (∃ store, run step {} shorterTail = some store ∧
      store.snapshot.metadata.index = 1 ∧ store.lastIndex = 4 ∧
      store.entries.map Entry.index = [3, 4] ∧
      store.entriesIn 2 5 none = .error .compacted ∧ store.term 2 = .error .compacted) ∧
    (∃ store, run step {}
        [.append [{ index := 1 }, { index := 2 }, { index := 3 }], .markApplied 3, .compactTo 3] =
          some store ∧
      store.snapshot.metadata.index = 0 ∧ store.lastIndex = 3 ∧
      store.entries.map Entry.index = [3] ∧ store.term 1 = .error .compacted) ∧
    ∃ store, run step {} [.append [{ index := 1 }, { index := 3 }]] = some store ∧
      store.entries.map Entry.index = [1, 3] ∧ store.term 2 = .error .unavailable := by
  refine ⟨⟨_, rfl, rfl, rfl, rfl, rfl, rfl⟩, ⟨_, rfl, rfl, rfl, rfl, rfl⟩, ⟨_, rfl, rfl, rfl⟩⟩

/-! ### The snapshot that is handed out -/

/-- A call of a store. A refused operation changes nothing. -/
inductive StoreCall where
  | op (op : RaftLogOp)
  | triggerSnapshotTemporarilyUnavailable
  | snapshotAt (requestIndex : ℕ)

def StoreCall.saved? : StoreCall → Option Snapshot
  | .op (.saveSnapshot snapshot _) => some snapshot
  | _ => none

def afterCall (store : InMemoryRaftLogStore) : StoreCall → InMemoryRaftLogStore
  | .op op => (store.step op).getD store
  | .triggerSnapshotTemporarilyUnavailable => { store with snapshotUnavailableOnce := true }
  | .snapshotAt requestIndex => (store.snapshotAt requestIndex).2

theorem snapshot_afterCall (store : InMemoryRaftLogStore) (call : StoreCall) :
    (store.afterCall call).snapshot = call.saved?.getD store.snapshot := by
  cases call with
  | triggerSnapshotTemporarilyUnavailable => rfl
  | snapshotAt requestIndex =>
    rw [afterCall, snapshotAt]
    split_ifs <;> rfl
  | op op =>
    rw [afterCall]
    cases hstep : store.step op with
    | none =>
      cases op <;> first | rfl | cases hstep
    | some next =>
      rw [step_eq_some_iff] at hstep
      cases op with
      | append entries => rcases append_eq_ok hstep with ⟨-, rfl⟩ | ⟨_, -, -, -, rfl⟩ <;> rfl
      | compactTo index =>
        obtain ⟨-, rfl⟩ := compactTo_eq_ok hstep
        rfl
      | _ =>
        cases hstep
        rfl

theorem snapshot_foldl_afterCall (calls : List StoreCall) (store : InMemoryRaftLogStore) :
    (calls.foldl afterCall store).snapshot =
      (calls.filterMap StoreCall.saved?).getLast?.getD store.snapshot := by
  induction calls generalizing store with
  | nil => rfl
  | cons call calls ih =>
    rw [List.foldl_cons, ih, snapshot_afterCall]
    cases hsaved : call.saved? <;> simp [hsaved, List.getLast?_cons]

/-- After any calls, a snapshot that is handed out is one of those saved exactly if none is handed
out or one was saved, and the index asked for is not above that of the last one saved, or is that of
another one with the same data, term and configuration. -/
theorem snapshotAt_saved_iff (calls : List StoreCall) (requestIndex : ℕ) :
    let store := calls.foldl afterCall {}
    let saved := calls.filterMap StoreCall.saved?
    (∀ snapshot, (store.snapshotAt requestIndex).1 = .ok snapshot → snapshot ∈ saved) ↔
      store.snapshotUnavailableOnce = true ∨
        ∃ last ∈ saved.getLast?, requestIndex ≤ last.metadata.index ∨
          ∃ other ∈ saved, other.metadata.index = requestIndex ∧ other.data = last.data ∧
            other.metadata.term = last.metadata.term ∧
            other.metadata.confState = last.metadata.confState := by
  intro store saved
  have hsnap : store.snapshot = saved.getLast?.getD {} := snapshot_foldl_afterCall calls {}
  rw [snapshotAt]
  by_cases hflag : store.snapshotUnavailableOnce
  · simp [hflag]
  · simp only [hflag, Bool.false_eq_true, if_false, false_or, Except.ok.injEq, forall_eq']
    cases hlast : saved.getLast? with
    | none => simp [List.getLast?_eq_none_iff.mp hlast]
    | some last =>
      have hmem : last ∈ saved := List.mem_of_getLast? hlast
      rw [hsnap, hlast]
      simp only [Option.getD_some, Option.mem_def, Option.some.injEq, exists_eq_left']
      rcases le_or_gt requestIndex last.metadata.index with hle | hlt
      · rw [max_eq_left hle]
        exact iff_of_true hmem (.inl hle)
      · rw [max_eq_right hlt.le]
        constructor
        · exact fun h ↦ .inr ⟨_, h, rfl, rfl, rfl, rfl⟩
        · rintro (hle | ⟨⟨data, conf, index, term⟩, hother, rfl, rfl, rfl, rfl⟩)
          · exact absurd hle hlt.not_ge
          · exact hother

/-- A snapshot of index 5 is handed out as one of index 7, which was never saved. -/
theorem snapshotAt_raises_index :
    let saved : Snapshot := { data := [1], metadata := { index := 5, term := 2 } }
    let calls := [.op (.saveSnapshot saved 0)]
    ∃ snapshot, ((calls.foldl afterCall {}).snapshotAt 7).1 = .ok snapshot ∧
      snapshot.metadata.index = 7 ∧ snapshot ∉ calls.filterMap StoreCall.saved? := by
  refine ⟨{ data := [1], metadata := { index := 7, term := 2 } }, rfl, rfl, ?_⟩
  simp [StoreCall.saved?]

/-! ### Limits of size -/

/-- The bytes of the data of some entries. -/
def totalSize (entries : List Entry) : ℕ := (entries.map fun entry ↦ entry.data.length).sum

theorem le_keptBySize_iff {maxSize total m : ℕ} (hm : m ≤ entries.length)
    (htotal : total ≤ maxSize) :
    m ≤ keptBySize maxSize total entries ↔
      min (total + totalSize (entries.take m)) maxWord ≤ maxSize := by
  induction entries generalizing total m with
  | nil =>
    obtain rfl := Nat.le_zero.mp hm
    exact iff_of_true (Nat.zero_le _) ((Nat.min_le_left _ _).trans htotal)
  | cons entry entries ih =>
    cases m with
    | zero => exact iff_of_true (Nat.zero_le _) ((Nat.min_le_left _ _).trans htotal)
    | succ m =>
      rw [List.take_succ_cons, totalSize, List.map_cons, List.sum_cons, ← totalSize, keptBySize,
        saturatingAdd]
      split_ifs with hover
      · omega
      · rw [Nat.succ_le_succ_iff, ih (Nat.le_of_succ_le_succ hm) (not_lt.mp hover)]
        omega

/-- The first `n` entries are kept, and one in any case, where the prefixes within the limit are
those of at most `n` entries. A size is the sum that stops at the largest word. -/
theorem limitEntriesSize_longest (entries : List Entry) (maxSize : ℕ) :
    ∃ n, limitEntriesSize entries maxSize = entries.take (max n 1) ∧
      ∀ m ≤ entries.length, (m ≤ n ↔ min (totalSize (entries.take m)) maxWord ≤ maxSize) := by
  refine ⟨keptBySize maxSize 0 entries, ?_, fun m hm ↦ ?_⟩
  · unfold limitEntriesSize
    split_ifs with hlen
    · exact (List.take_of_length_le (hlen.trans (Nat.le_max_right _ _))).symm
    · rfl
  · rw [le_keptBySize_iff hm (Nat.zero_le _), Nat.zero_add]

/-- No sum that stops at the largest word is above the largest limit. -/
theorem limitEntriesSize_maxWord (entries : List Entry) :
    limitEntriesSize entries maxWord = entries := by
  unfold limitEntriesSize
  split_ifs
  · rfl
  · have hall : entries.length ≤ keptBySize maxWord 0 entries :=
      (le_keptBySize_iff le_rfl (Nat.zero_le _)).mpr (Nat.min_le_right ..)
    exact List.take_of_length_le (hall.trans (Nat.le_max_left ..))

/-- Many entries of one shared buffer pass the largest limit together, though they are larger. -/
theorem limitEntriesSize_saturates :
    ∃ data : Bytes, data.length = 2 ^ 35 ∧ ∃ entries : List Entry,
      entries.length = 2 ^ 29 + 1 ∧ (∀ entry ∈ entries, entry = { data }) ∧
      maxWord < totalSize entries ∧ limitEntriesSize entries maxWord = entries := by
  have hdata (n : ℕ) : ∃ data : Bytes, data.length = n := ⟨.replicate n 0, List.length_replicate⟩
  have hentries (n : ℕ) (data : Bytes) : ∃ entries : List Entry, entries.length = n ∧
      (∀ entry ∈ entries, entry = { data }) ∧ totalSize entries = n * data.length :=
    ⟨.replicate n { data }, by simp [totalSize]⟩
  obtain ⟨data, hlen⟩ := hdata (2 ^ 35)
  obtain ⟨entries, hcount, hsame, hsize⟩ := hentries (2 ^ 29 + 1) data
  refine ⟨data, hlen, entries, hcount, hsame, ?_, limitEntriesSize_maxWord entries⟩
  rw [hsize, hlen]
  decide

end InMemoryRaftLogStore

end HydraCache.Raft
