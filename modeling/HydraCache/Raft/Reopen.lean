import HydraCache.Raft.SledLogStore

/-!
# Reopening the durable log store

`Durable` says that the rows on disk hold the state in memory and that it is one replaying can
rebuild; then reopening gives that state (`replayFromSled_of_durable`). Each operation that succeeds
under `Reopenable` keeps it (`durable_apply`), so a store reopens as it was at the end of every such
run (`reopen_of_run`).

`Reopenable` names what the source does not make sure of. Replaying appends the entries after the
snapshot, so a log that does not start there is refused: `compactTo` beyond the snapshot and
`saveSnapshot` with a shorter tail leave such a log. Replaying the snapshot raises the hard state to
it, where the memory may have fallen behind it since. `markApplied` writes the last index it is
given where the memory keeps the largest. And entries appended out of order are read back in order.
The first three are the runs of `reopen_differs`.
-/

set_option autoImplicit false

namespace HydraCache.Raft

open Lib OrderedMap List InMemoryRaftLogStore

/-- The entries have ascending indices. -/
abbrev Ascending (entries : List Entry) : Prop :=
  entries.Pairwise fun entry other ↦ entry.index < other.index

variable {inner : InMemoryRaftLogStore} {bytes : Bytes} {index : ℕ} {snapshot : Snapshot}

namespace SledRaftLogStore

variable (protobuf : Protobuf)

/-! ### The rows of the entries -/

theorem isEntryKey_entryKey (index : ℕ) : isEntryKey (entryKey index) :=
  isPrefixOf_iff_prefix.mpr (prefix_append _ _)

theorem ne_of_isEntryKey {key other : Bytes} (hkey : isEntryKey key)
    (hother : isEntryKey other = false) : key ≠ other := by
  rintro rfl
  exact Bool.false_ne_true (hother.symm.trans hkey)

theorem decodeEntryIndexKey_entryKey (h : index < wordSize) :
    decodeEntryIndexKey (entryKey index) = .ok index := by
  rw [decodeEntryIndexKey, if_pos (isEntryKey_entryKey index), entryKey, drop_left]
  exact decodeU64_encodeU64 h

theorem entryKey_lt_entryKey {index other : ℕ} (hlt : index < other) (hother : other < wordSize) :
    entryKey index < entryKey other :=
  append_left_lt (bigEndian_lt_bigEndian hlt hother)

/-- The row holds the entry. -/
structure EntryRow (row : Bytes × Bytes) (entry : Entry) : Prop where
  key : row.1 = entryKey entry.index
  value : decodeEntry protobuf row.2 = .ok entry
  word : entry.index < wordSize

/-- The rows of the entries on disk hold these entries. -/
def EntryRows (db : Sled) (entries : List Entry) : Prop :=
  List.Forall₂ (EntryRow protobuf) (db.scan isEntryKey) entries

/-- The rows that hold no entry are the same. -/
def SameMeta (db db' : Sled) : Prop := ∀ key, isEntryKey key = false → db'.get key = db.get key

variable {protobuf} {db : Sled} {entries : List Entry}

theorem entryRows_of_sameMeta_insert {key value : Bytes} (h : EntryRows protobuf db entries)
    (hkey : isEntryKey key = false) : EntryRows protobuf (db.insert key value) entries := by
  unfold EntryRows
  rwa [scan_insert_of_not _ hkey]

theorem sameMeta_insert_entryKey (index : ℕ) (value : Bytes) :
    SameMeta db (db.insert (entryKey index) value) := by
  intro key hkey
  exact get_insert_of_ne _ _ (ne_of_isEntryKey (isEntryKey_entryKey index) hkey).symm

theorem exists_entryRow {row : Bytes × Bytes} (h : EntryRows protobuf db entries)
    (hrow : row ∈ db.scan isEntryKey) : ∃ entry ∈ entries, EntryRow protobuf row entry := by
  unfold EntryRows at h
  generalize db.scan isEntryKey = rows at h hrow
  induction h with
  | nil => exact absurd hrow not_mem_nil
  | @cons _ entry _ _ hfirst _ ih =>
    rcases mem_cons.mp hrow with rfl | hrow
    · exact ⟨entry, mem_cons_self, hfirst⟩
    · obtain ⟨found, hfound, hrowFound⟩ := ih hrow
      exact ⟨found, mem_cons_of_mem _ hfound, hrowFound⟩

variable {entry : Entry} {store store' : SledRaftLogStore} {result : Unit} {drop : ℕ → Bool}

theorem EntryRows.word (h : EntryRows protobuf db entries) (hentry : entry ∈ entries) :
    entry.index < wordSize := by
  unfold EntryRows at h
  generalize db.scan isEntryKey = rows at h
  induction h with
  | nil => exact absurd hentry not_mem_nil
  | cons hfirst _ ih =>
    rcases mem_cons.mp hentry with rfl | hentry
    · exact hfirst.word
    · exact ih hentry

/-- An entry after all those on disk is the last of them. -/
theorem entryRows_insert (h : EntryRows protobuf db entries)
    (hlast : ∀ kept ∈ entries, kept.index < entry.index) (hword : entry.index < wordSize)
    (hbytes : encodeEntry protobuf entry = .ok bytes) :
    EntryRows protobuf (db.insert (entryKey entry.index) bytes) (entries ++ [entry]) := by
  unfold EntryRows
  rw [scan_insert_last _ (isEntryKey_entryKey _)]
  · exact rel_append h (.cons ⟨rfl, decodeMessage_of_encodeMessage hbytes, hword⟩ .nil)
  · intro row hrow
    obtain ⟨kept, hkept, hrowKept⟩ := exists_entryRow h hrow
    rw [hrowKept.key]
    exact entryKey_lt_entryKey (hlast kept hkept) hword

/-- The key is that of an entry to drop. -/
def dropsKey (drop : ℕ → Bool) (key : Bytes) : Bool :=
  match decodeEntryIndexKey key with
  | .ok index => drop index
  | .error _ => false

/-- Removing entries one after the other removes exactly those to drop. -/
theorem get_of_removeEntries (h : Returns (removeEntries drop) store result store') :
    store'.inner = store.inner ∧ ∀ key, store'.db.get key =
      if key ∈ entryKeys store.db ∧ dropsKey drop key then none else store.db.get key := by
  rw [removeEntries, returns_get_bind_iff] at h
  refine returns_forM (I := fun done s ↦ s.inner = store.inner ∧ ∀ key, s.db.get key =
    if key ∈ done ∧ dropsKey drop key then none else store.db.get key) ?_ (by simp) h
  rintro done key rest s result s' - ⟨hinner, hget⟩ hbody
  simp only [returns_liftExcept_bind_iff, writeDb, returns_modify_iff] at hbody
  obtain ⟨index, hindex, rfl⟩ := hbody
  have hdrops : dropsKey drop key = drop index := by
    rw [dropsKey, hindex]
  refine ⟨hinner, fun other ↦ ?_⟩
  by_cases hother : other = key
  · subst hother
    by_cases hdrop : drop index <;> simp [hdrop, hdrops, get_remove, hget]
  · by_cases hdrop : drop index <;> simp [hdrop, hother, get_remove, hget]

theorem removeEntries_spec (h : Returns (removeEntries drop) store result store')
    (hrows : EntryRows protobuf store.db entries) :
    store'.inner = store.inner ∧ SameMeta store.db store'.db ∧
      EntryRows protobuf store'.db (entries.filter fun entry ↦ ¬ drop entry.index) := by
  obtain ⟨hinner, hget⟩ := get_of_removeEntries h
  refine ⟨hinner, ?_, ?_⟩
  · intro key hkey
    rw [hget, if_neg]
    rintro ⟨hmem, -⟩
    obtain ⟨row, hrow, rfl⟩ := mem_map.mp hmem
    simp [((mem_scan_iff _).mp hrow).1] at hkey
  · have hscan : store'.db.scan isEntryKey =
        (store.db.scan isEntryKey).filter fun row ↦ ¬ dropsKey drop row.1 := by
      refine scan_eq_of_mem_iff _ ((sorted_scan _ _).filter _) fun row ↦ ?_
      rw [mem_filter, mem_scan_iff, hget, and_assoc]
      refine and_congr_right fun hkey ↦ ?_
      by_cases hmem : row.1 ∈ entryKeys store.db
      · by_cases hdrop : dropsKey drop row.1 <;> simp [hmem, hdrop]
      · have hnone : store.db.get row.1 ≠ some row.2 := fun hsome ↦
          hmem (mem_map.mpr ⟨row, (mem_scan_iff _).mpr ⟨hkey, hsome⟩, rfl⟩)
        simp [hmem, hnone]
    rw [EntryRows, hscan]
    refine rel_filter ?_ hrows
    intro row entry hrow
    have hdrops : dropsKey drop row.1 = drop entry.index := by
      rw [dropsKey, hrow.key, decodeEntryIndexKey_entryKey hrow.word]
    dsimp only
    rw [hdrops]

theorem SameMeta.trans {first second third : Sled} (h : SameMeta first second)
    (h' : SameMeta second third) : SameMeta first third :=
  fun key hkey ↦ (h' key hkey).trans (h key hkey)

/-- Assumes: entries in ascending order after those on disk. They are on disk after those. -/
theorem insertEntries_spec {kept : List Entry}
    (h : Returns (insertEntries protobuf entries) store result store')
    (hrows : EntryRows protobuf store.db kept) (hinc : Ascending (kept ++ entries))
    (hwords : ∀ entry ∈ entries, entry.index < wordSize) :
    store'.inner = store.inner ∧ SameMeta store.db store'.db ∧
      EntryRows protobuf store'.db (kept ++ entries) := by
  refine returns_forM (I := fun done s ↦ s.inner = store.inner ∧ SameMeta store.db s.db ∧
    EntryRows protobuf s.db (kept ++ done)) ?_ ⟨rfl, fun _ _ ↦ rfl, by simpa using hrows⟩ h
  rintro done entry rest s result s' rfl ⟨hinner, hmeta, hdone⟩ hbody
  simp only [returns_liftExcept_bind_iff, writeDb, returns_modify_iff] at hbody
  obtain ⟨bytes, hbytes, rfl⟩ := hbody
  refine ⟨hinner, hmeta.trans (sameMeta_insert_entryKey _ _), ?_⟩
  rw [← append_assoc]
  refine entryRows_insert hdone ?_ (hwords entry (by simp)) hbytes
  intro other hother
  rw [← append_assoc] at hinc
  exact (pairwise_append.mp hinc).2.2 other hother entry mem_cons_self

/-! ### Rows under one key -/

/-- What stands under the key is the value, and nothing stands there for the initial one. -/
def Stored {M : Type} (decode : Bytes → Except RaftStoreError M) (db : Sled) (key : Bytes)
    (initial value : M) : Prop :=
  (db.get key = none ∧ value = initial) ∨ ∃ bytes, db.get key = some bytes ∧
    decode bytes = .ok value

section Stored

variable {M : Type} {decode : Bytes → Except RaftStoreError M} {key : Bytes} {initial value : M}

theorem Stored.of_get_eq {db' : Sled} (h : Stored decode db key initial value)
    (hget : db'.get key = db.get key) : Stored decode db' key initial value := by
  unfold Stored
  rwa [hget]

theorem stored_insert (h : decode bytes = .ok value) :
    Stored decode (db.insert key bytes) key initial value := by
  exact .inr ⟨bytes, get_insert_self _ _ _, h⟩

/-- Assumes: installing the initial value changes nothing. The value is installed. -/
theorem replayKey_of_stored {install : InMemoryRaftLogStore → M → InMemoryRaftLogStore}
    (h : Stored decode db key initial value)
    (hinit : db.get key = none → install inner initial = inner) :
    replayKey db key decode install inner = .ok (install inner value) := by
  unfold replayKey
  rcases h with ⟨hnone, rfl⟩ | ⟨bytes, hbytes, hdec⟩
  · rw [hnone, hinit hnone]
  · rw [hbytes]
    dsimp only
    rw [hdec]
    rfl

end Stored

/-- The rows hold the state in memory, and replaying them can rebuild it: the log starts after the
snapshot, and the hard state is not behind it. -/
structure Durable (protobuf : Protobuf) (store : SledRaftLogStore) : Prop where
  hardState : Stored (decodeHardState protobuf) store.db sledHardStateKey {} store.inner.hardState
  confState : Stored (decodeConfState protobuf) store.db sledConfStateKey {} store.inner.confState
  snapshot : Stored (decodeSnapshot protobuf) store.db sledSnapshotKey {} store.inner.snapshot
  applied : Stored decodeU64 store.db sledAppliedKey 0 store.inner.appliedIndex
  entries : EntryRows protobuf store.db store.inner.entries
  increasing : store.inner.entries.Pairwise fun entry other ↦ entry.index < other.index
  startsAfterSnapshot : store.inner.firstIndex = saturatingSucc store.inner.snapshot.metadata.index
  term : store.inner.snapshot.metadata.term ≤ store.inner.hardState.term
  commit : store.inner.snapshot.metadata.index ≤ store.inner.hardState.commit
  confStateOfSnapshot : store.db.get sledConfStateKey = none → store.db.get sledSnapshotKey = none

theorem mapM_decodeEntry (h : EntryRows protobuf db entries) :
    ((db.scan isEntryKey).mapM fun row ↦ decodeEntry protobuf row.2) = .ok entries := by
  unfold EntryRows at h
  generalize db.scan isEntryKey = rows at h
  induction h with
  | nil => rfl
  | cons hrow _ ih =>
    rw [mapM_cons, hrow.value, ih]
    rfl

theorem append_after_snapshot (hents : inner.entries = [])
    (hentry : entry.index = saturatingSucc inner.snapshot.metadata.index) :
    inner.append (entry :: entries) = .ok { inner with entries := entry :: entries } := by
  have hfirst : inner.firstIndex = saturatingSucc inner.snapshot.metadata.index := by
    rw [firstIndex, hents]
    rfl
  have hlast : inner.lastIndex = inner.snapshot.metadata.index := by
    rw [InMemoryRaftLogStore.lastIndex, hents]
    rfl
  rw [InMemoryRaftLogStore.append, List.head?_cons]
  dsimp only
  rw [hfirst, hlast, hentry, if_neg (lt_irrefl _), if_neg (lt_irrefl _), hents]
  rfl

/-- Assumes: the rows hold the state in memory. Replaying them rebuilds it. -/
theorem replayFromSled_of_durable (h : Durable protobuf store) :
    replayFromSled protobuf store.db =
      .ok { store.inner with snapshotUnavailableOnce := false } := by
  obtain ⟨⟨hardState, confState, entries, snapshot, appliedIndex, unavailable⟩, db⟩ := store
  obtain ⟨hhardState, hconfState, hsnap, happ, hents, -, hfirst, hterm, hcom, hconf⟩ := h
  have hhard : replayKey db sledHardStateKey (decodeHardState protobuf) .saveHardState {} =
      .ok { hardState } :=
    replayKey_of_stored hhardState fun _ ↦ rfl
  -- the snapshot does not raise the hard state
  have hraised : ({ hardState } : InMemoryRaftLogStore).saveSnapshot snapshot maxWord =
      { hardState, snapshot, confState := snapshot.metadata.confState } := by
    simp [InMemoryRaftLogStore.saveSnapshot, InMemoryRaftLogStore.installSnapshotAfterPersist,
      InMemoryRaftLogStore.retainedEntriesAfterSnapshot, hterm, hcom]
  have hinst : replayKey db sledSnapshotKey (decodeSnapshot protobuf) (·.saveSnapshot · maxWord)
      { hardState } = .ok { hardState, snapshot, confState := snapshot.metadata.confState } := by
    rw [← hraised]
    refine replayKey_of_stored hsnap fun _ ↦ ?_
    simp [InMemoryRaftLogStore.saveSnapshot, InMemoryRaftLogStore.installSnapshotAfterPersist,
      InMemoryRaftLogStore.retainedEntriesAfterSnapshot]
  have hconfigured : replayKey db sledConfStateKey (decodeConfState protobuf) .saveConfState
      { hardState, snapshot, confState := snapshot.metadata.confState } =
        .ok { hardState, snapshot, confState } := by
    refine replayKey_of_stored hconfState fun hnone ↦ ?_
    -- without a row for the configuration there is none for the snapshot
    rcases hsnap with ⟨-, rfl⟩ | ⟨bytes, hbytes, -⟩
    · rfl
    · simp [hconf hnone] at hbytes
  have happended : replayEntries { hardState, snapshot, confState } entries =
      .ok { hardState, snapshot, confState, entries } := by
    cases entries with
    | nil => rfl
    | cons => exact append_after_snapshot rfl hfirst
  have hmarked : replayKey db sledAppliedKey decodeU64 .markApplied
      { hardState, snapshot, confState, entries } =
        .ok { hardState, snapshot, confState, entries, appliedIndex } := by
    rw [replayKey_of_stored happ fun _ ↦ rfl]
    simp [InMemoryRaftLogStore.markApplied]
  rw [replayFromSled, hhard, ok_bind, hinst, ok_bind, hconfigured, ok_bind,
    mapM_decodeEntry hents, ok_bind, happended, ok_bind, hmarked]

/-! ### Batches -/

theorem applyBatch_append (db : Sled) (first second : List BatchOp) :
    applyBatch db (first ++ second) = applyBatch (applyBatch db first) second :=
  foldl_append

theorem get_applyBatch_remove (db : Sled) (keys : List Bytes) (key : Bytes) :
    (applyBatch db (keys.map .remove)).get key = if key ∈ keys then none else db.get key := by
  induction keys generalizing db with
  | nil => rfl
  | cons first rest ih =>
    change (applyBatch (db.remove first) (rest.map .remove)).get key = _
    rw [ih, get_remove]
    by_cases hfirst : key = first <;> simp [hfirst]

/-- Assumes: entries in ascending order after those on disk. Their inserts put them after those. -/
theorem applyBatch_inserts {retained kept : List Entry} {inserts : List BatchOp}
    (hinserts : (retained.mapM fun entry ↦ do
      let bytes ← encodeEntry protobuf entry
      .ok (BatchOp.insert (entryKey entry.index) bytes)) = .ok inserts)
    (hrows : EntryRows protobuf db kept) (hinc : Ascending (kept ++ retained))
    (hwords : ∀ entry ∈ retained, entry.index < wordSize) :
    SameMeta db (applyBatch db inserts) ∧
      EntryRows protobuf (applyBatch db inserts) (kept ++ retained) := by
  induction retained generalizing db kept inserts with
  | nil =>
    cases hinserts
    rw [append_nil]
    exact ⟨fun _ _ ↦ rfl, hrows⟩
  | cons entry _ ih =>
    simp only [mapM_cons, bind_eq_ok_iff] at hinserts
    obtain ⟨_, ⟨bytes, hbytes, hop⟩, ops, hops, hall⟩ := hinserts
    cases hop
    cases hall
    have hlast : ∀ other ∈ kept, other.index < entry.index := fun other hother ↦
      (pairwise_append.mp hinc).2.2 other hother entry mem_cons_self
    have hentry := entryRows_insert hrows hlast (hwords entry mem_cons_self) hbytes
    rw [append_cons] at hinc ⊢
    obtain ⟨hmeta, hrest⟩ := ih hops hentry hinc fun other hother ↦
      hwords other (mem_cons_of_mem _ hother)
    exact ⟨(sameMeta_insert_entryKey _ _).trans hmeta, hrest⟩

/-- Assumes: retained entries in ascending order. The batch leaves under the keys of the snapshot
what it was given, the applied index as it was, and the retained entries in place of all others. -/
theorem applyBatch_snapshotBatch {retained : List Entry} {batch : List BatchOp}
    (hbatch : snapshotBatch protobuf store snapshot retained = .ok batch)
    (hinc : Ascending retained) (hwords : ∀ entry ∈ retained, entry.index < wordSize) :
    let db := applyBatch store.db batch
    (∃ bytes, db.get sledSnapshotKey = some bytes ∧ decodeSnapshot protobuf bytes = .ok snapshot) ∧
    (∃ bytes, db.get sledConfStateKey = some bytes ∧
      decodeConfState protobuf bytes = .ok snapshot.metadata.confState) ∧
    (∃ bytes, db.get sledHardStateKey = some bytes ∧
      decodeHardState protobuf bytes = .ok
        { store.inner.hardState with
          term := max store.inner.hardState.term snapshot.metadata.term
          commit := max store.inner.hardState.commit snapshot.metadata.index }) ∧
    db.get sledAppliedKey = store.db.get sledAppliedKey ∧ EntryRows protobuf db retained := by
  simp only [snapshotBatch, bind_eq_ok_iff] at hbatch
  obtain ⟨snapshotBytes, hsnap, confStateBytes, hconf, hardStateBytes, hhard, inserts,
    hinserts, hall⟩ := hbatch
  cases hall
  intro db
  let written := ((store.db.insert sledSnapshotKey snapshotBytes).insert sledConfStateKey
    confStateBytes).insert sledHardStateKey hardStateBytes
  let cleared := applyBatch written ((entryKeys store.db).map .remove)
  have hdb : db = applyBatch cleared inserts := by
    simp only [db, applyBatch_append]
    rfl
  have hclearedGet : ∀ key, isEntryKey key = false → cleared.get key = written.get key := by
    intro key hkey
    refine (get_applyBatch_remove _ _ _).trans (if_neg fun hmem ↦ ?_)
    obtain ⟨row, hrow, rfl⟩ := mem_map.mp hmem
    exact Bool.false_ne_true (hkey.symm.trans ((mem_scan_iff _).mp hrow).1)
  have hclearedRows : EntryRows protobuf cleared [] := by
    have hscan : cleared.scan isEntryKey = [] := by
      refine scan_eq_of_mem_iff _ .nil fun row ↦ ?_
      refine ⟨fun h ↦ absurd h not_mem_nil, ?_⟩
      rintro ⟨hkey, hget⟩
      rw [get_applyBatch_remove] at hget
      split_ifs at hget with hmem
      rw [get_insert_of_ne _ _ (ne_of_isEntryKey hkey rfl),
        get_insert_of_ne _ _ (ne_of_isEntryKey hkey rfl),
        get_insert_of_ne _ _ (ne_of_isEntryKey hkey rfl)] at hget
      exact absurd (mem_map.mpr ⟨row, (mem_scan_iff _).mpr ⟨hkey, hget⟩, rfl⟩) hmem
    rw [EntryRows, hscan]
    exact .nil
  obtain ⟨hmeta, hrows⟩ := applyBatch_inserts hinserts hclearedRows hinc hwords
  rw [← hdb] at hmeta hrows
  have hget : ∀ key, isEntryKey key = false → db.get key = written.get key := fun key hkey ↦
    (hmeta key hkey).trans (hclearedGet key hkey)
  refine ⟨⟨snapshotBytes, ?_, decodeSnapshot_of_encodeSnapshot protobuf hsnap⟩,
    ⟨confStateBytes, ?_, decodeMessage_of_encodeMessage hconf⟩,
    ⟨hardStateBytes, ?_, decodeMessage_of_encodeMessage hhard⟩, ?_, hrows⟩
  · rw [hget _ rfl, get_insert_of_ne _ _ (by decide), get_insert_of_ne _ _ (by decide),
      get_insert_self]
  · rw [hget _ rfl, get_insert_of_ne _ _ (by decide), get_insert_self]
  · rw [hget _ rfl, get_insert_self]
  · rw [hget _ rfl, get_insert_of_ne _ _ (by decide),
      get_insert_of_ne _ _ (by decide), get_insert_of_ne _ _ (by decide)]

end SledRaftLogStore

/-! ### What reopening needs -/

/-- The entries, if there are any, start right after the snapshot. -/
def StartsAfter (snapshotIndex : ℕ) (entries : List Entry) : Prop :=
  ∀ entry ∈ entries.head?, entry.index = saturatingSucc snapshotIndex

/-- The numbers that are written as eight bytes are 64-bit words. -/
def RaftLogOp.Words : RaftLogOp → Prop
  | .append entries => ∀ entry ∈ entries, entry.index < wordSize
  | .markApplied index => index < wordSize
  | _ => True

/-- The operation leaves a state that replaying can rebuild: entries are appended in ascending
order, what stays of the log starts after the snapshot, the hard state does not fall behind the
snapshot, and the applied index does not go back. -/
def Reopenable (inner : InMemoryRaftLogStore) : RaftLogOp → Prop
  | .saveHardState hardState =>
    inner.snapshot.metadata.term ≤ hardState.term ∧ inner.snapshot.metadata.index ≤ hardState.commit
  | .saveConfState _ => True
  | .append entries => entries.Pairwise fun entry other ↦ entry.index < other.index
  | .truncateSuffix _ => True
  | .saveSnapshot snapshot preserve =>
    StartsAfter snapshot.metadata.index
      (inner.retainedEntriesAfterSnapshot snapshot.metadata.index preserve)
  | .compactTo index =>
    StartsAfter inner.snapshot.metadata.index (inner.entries.filter fun kept ↦ index ≤ kept.index)
  | .markApplied index => inner.appliedIndex ≤ index
  | .setCommit commit => inner.snapshot.metadata.index ≤ commit

instance (snapshotIndex : ℕ) (entries : List Entry) :
    Decidable (StartsAfter snapshotIndex entries) :=
  inferInstanceAs (Decidable (∀ entry ∈ _, _ = _))

instance : DecidablePred RaftLogOp.Words
  | .append _ => inferInstanceAs (Decidable (∀ entry ∈ _, _ < _))
  | .markApplied _ => inferInstanceAs (Decidable (_ < _))
  | .saveHardState _ | .saveConfState _ | .truncateSuffix _ | .saveSnapshot _ _ | .compactTo _
  | .setCommit _ => .isTrue trivial

instance (inner : InMemoryRaftLogStore) : DecidablePred (Reopenable inner)
  | .saveHardState _ => inferInstanceAs (Decidable (_ ∧ _))
  | .saveConfState _ | .truncateSuffix _ => .isTrue trivial
  | .append _ => inferInstanceAs (Decidable (List.Pairwise (fun _ _ ↦ _ < _) _))
  | .saveSnapshot _ _ | .compactTo _ => inferInstanceAs (Decidable (StartsAfter _ _))
  | .markApplied _ | .setCommit _ => inferInstanceAs (Decidable (_ ≤ _))

theorem firstIndex_eq_iff_startsAfter :
    inner.firstIndex = saturatingSucc inner.snapshot.metadata.index ↔
      StartsAfter inner.snapshot.metadata.index inner.entries := by
  unfold firstIndex StartsAfter
  cases inner.entries.head? <;> simp

variable {entries : List Entry}

theorem startsAfter_filter_lt {snapshotIndex : ℕ}
    (h : StartsAfter snapshotIndex entries) (hinc : Ascending entries) (cut : ℕ) :
    StartsAfter snapshotIndex (entries.filter fun kept ↦ kept.index < cut) := by
  cases entries with
  | nil => exact h
  | cons first rest =>
    by_cases hfirst : first.index < cut
    · rwa [filter_cons, if_pos (decide_eq_true hfirst)]
    · -- the first entry is not before the cut, so none is
      have hnil : (first :: rest).filter (fun kept ↦ kept.index < cut) = [] := by
        rw [filter_eq_nil_iff]
        intro entry hentry
        rw [decide_eq_true_iff]
        rcases mem_cons.mp hentry with rfl | hentry
        · exact hfirst
        · have hlt := (pairwise_cons.mp hinc).1 entry hentry
          omega
      rw [hnil]
      intro entry hentry
      cases hentry

/-- Entries that are appended where the log ends start after the snapshot, or what is kept does. -/
theorem startsAfter_append {entry : Entry}
    (h : StartsAfter inner.snapshot.metadata.index inner.entries) (hinc : Ascending inner.entries)
    (hhead : entries.head? = some entry) (hfirst : inner.firstIndex ≤ entry.index)
    (hlast : entry.index ≤ saturatingSucc inner.lastIndex) :
    StartsAfter inner.snapshot.metadata.index
      (inner.entries.filter (fun kept ↦ kept.index < entry.index) ++ entries) := by
  rw [firstIndex_eq_iff_startsAfter.mpr h] at hfirst
  have hkept := startsAfter_filter_lt h hinc entry.index
  cases hfilter : inner.entries.filter fun kept ↦ kept.index < entry.index with
  | cons => rwa [hfilter] at hkept
  | nil =>
    -- nothing is kept, so the new entries start at the first index
    intro other hother
    rw [nil_append, hhead, Option.mem_some_iff] at hother
    rw [← hother]
    refine Nat.le_antisymm ?_ hfirst
    cases hents : inner.entries with
    | nil =>
      have hlastIndex : inner.lastIndex = inner.snapshot.metadata.index := by
        rw [InMemoryRaftLogStore.lastIndex, hents]
        rfl
      exact hlastIndex ▸ hlast
    | cons first =>
      have hindex : first.index = saturatingSucc inner.snapshot.metadata.index :=
        h first (by rw [hents]; rfl)
      have hnotLt := filter_eq_nil_iff.mp hfilter first (hents ▸ mem_cons_self)
      rw [decide_eq_true_iff, hindex] at hnotLt
      exact Nat.le_of_not_lt hnotLt

namespace SledRaftLogStore

variable {protobuf : Protobuf} {store store' : SledRaftLogStore} {result : Unit}

section

variable (h : Durable protobuf store)
include h

/-- Only the entries change, in memory and on disk alike. -/
theorem Durable.of_entries
    (hmeta : SameMeta store.db store'.db) (hinner : store'.inner = { store.inner with entries })
    (hrows : EntryRows protobuf store'.db entries) (hinc : Ascending entries)
    (hstarts : StartsAfter store.inner.snapshot.metadata.index entries) :
    Durable protobuf store' := by
  obtain ⟨inner, db⟩ := store'
  cases hinner
  exact
    { h with
      hardState := h.hardState.of_get_eq (hmeta _ rfl)
      confState := h.confState.of_get_eq (hmeta _ rfl)
      snapshot := h.snapshot.of_get_eq (hmeta _ rfl)
      applied := h.applied.of_get_eq (hmeta _ rfl)
      entries := hrows
      increasing := hinc
      startsAfterSnapshot := firstIndex_eq_iff_startsAfter.mpr hstarts
      confStateOfSnapshot := by
        intro hnone
        rw [hmeta _ rfl] at hnone ⊢
        exact h.confStateOfSnapshot hnone }

/-- Only the hard state changes, in memory and on disk alike. -/
theorem Durable.of_hardState {hardState : HardState}
    (hbytes : encodeHardState protobuf hardState = .ok bytes)
    (hterm : store.inner.snapshot.metadata.term ≤ hardState.term)
    (hcom : store.inner.snapshot.metadata.index ≤ hardState.commit) :
    Durable protobuf ⟨{ store.inner with hardState }, store.db.insert sledHardStateKey bytes⟩ where
  hardState := stored_insert (decodeMessage_of_encodeMessage hbytes)
  confState := h.confState.of_get_eq (get_insert_of_ne _ _ (by decide))
  snapshot := h.snapshot.of_get_eq (get_insert_of_ne _ _ (by decide))
  applied := h.applied.of_get_eq (get_insert_of_ne _ _ (by decide))
  entries := entryRows_of_sameMeta_insert h.entries rfl
  __ := h
  term := hterm
  commit := hcom
  confStateOfSnapshot := by
    intro hnone
    rw [get_insert_of_ne _ _ (by decide)] at hnone ⊢
    exact h.confStateOfSnapshot hnone

theorem durable_saveConfState {confState : ConfState}
    (hret : Returns (saveConfState protobuf confState) store result store') :
    Durable protobuf store' := by
  simp only [saveConfState, writeInner, writeDb, returns_modify_bind_iff,
    returns_liftExcept_bind_iff, returns_modify_iff] at hret
  obtain ⟨bytes, hbytes, rfl⟩ := hret
  exact
    { h with
      hardState := h.hardState.of_get_eq (get_insert_of_ne _ _ (by decide))
      confState := stored_insert (decodeMessage_of_encodeMessage hbytes)
      snapshot := h.snapshot.of_get_eq (get_insert_of_ne _ _ (by decide))
      applied := h.applied.of_get_eq (get_insert_of_ne _ _ (by decide))
      entries := entryRows_of_sameMeta_insert h.entries rfl
      confStateOfSnapshot := by
        intro hnone
        rw [get_insert_self] at hnone
        cases hnone }

theorem durable_markApplied (hword : index < wordSize) (hforward : store.inner.appliedIndex ≤ index)
    (hret : Returns (markApplied index) store result store') : Durable protobuf store' := by
  simp only [markApplied, writeInner, writeDb, returns_modify_bind_iff, returns_modify_iff] at hret
  cases hret
  exact
    { h with
      hardState := h.hardState.of_get_eq (get_insert_of_ne _ _ (by decide))
      confState := h.confState.of_get_eq (get_insert_of_ne _ _ (by decide))
      snapshot := h.snapshot.of_get_eq (get_insert_of_ne _ _ (by decide))
      applied := by
        refine stored_insert ?_
        rw [decodeU64_encodeU64 hword, InMemoryRaftLogStore.markApplied, max_eq_right hforward]
      entries := entryRows_of_sameMeta_insert h.entries rfl
      confStateOfSnapshot := by
        intro hnone
        rw [get_insert_of_ne _ _ (by decide)] at hnone ⊢
        exact h.confStateOfSnapshot hnone }

theorem durable_truncateSuffix {fromIndex : ℕ}
    (hret : Returns (truncateSuffix fromIndex) store result store') :
    Durable protobuf store' := by
  rw [truncateSuffix, writeInner, returns_modify_bind_iff] at hret
  obtain ⟨hinner, hmeta, hrows⟩ := removeEntries_spec hret h.entries
  simp only [decide_eq_true_eq, not_le] at hrows
  exact h.of_entries hmeta hinner hrows (h.increasing.filter _)
    (startsAfter_filter_lt (firstIndex_eq_iff_startsAfter.mp h.startsAfterSnapshot) h.increasing _)

theorem durable_compactTo
    (hstarts : StartsAfter store.inner.snapshot.metadata.index
      (store.inner.entries.filter fun kept ↦ index ≤ kept.index))
    (hret : Returns (compactTo index) store result store') : Durable protobuf store' := by
  simp only [compactTo, tryInner, bind_assoc, returns_get_bind_iff, returns_liftExcept_bind_iff,
    writeInner, returns_modify_bind_iff] at hret
  obtain ⟨inner, hcompact, hrem⟩ := hret
  obtain ⟨-, rfl⟩ := compactTo_eq_ok hcompact
  obtain ⟨hinner, hmeta, hrows⟩ := removeEntries_spec hrem h.entries
  simp only [decide_eq_true_eq, not_lt] at hrows
  exact h.of_entries hmeta hinner hrows (h.increasing.filter _) hstarts

end

theorem pairwise_append_entries {kept : List Entry} {entry : Entry}
    (hkept : Ascending kept) (hents : Ascending entries) (hhead : entries.head? = some entry) :
    Ascending (kept.filter (fun kept ↦ kept.index < entry.index) ++ entries) := by
  refine pairwise_append.mpr ⟨hkept.filter _, hents, ?_⟩
  intro first hfirst other hother
  have hlt : first.index < entry.index := of_decide_eq_true (mem_filter.mp hfirst).2
  obtain ⟨rest, rfl⟩ := List.head?_eq_some_iff.mp hhead
  rcases mem_cons.mp hother with rfl | hother
  · exact hlt
  · exact hlt.trans ((pairwise_cons.mp hents).1 other hother)

theorem durable_append (h : Durable protobuf store)
    (hwords : ∀ entry ∈ entries, entry.index < wordSize) (hents : Ascending entries)
    (hret : Returns (append protobuf entries) store result store') :
    Durable protobuf store' := by
  obtain ⟨_, removed, hrem, hrest⟩ := returns_bind_iff.mp hret
  simp only [tryInner, bind_assoc, returns_get_bind_iff, returns_liftExcept_bind_iff, writeInner,
    returns_modify_bind_iff] at hrest
  obtain ⟨inner, happend, hins⟩ := hrest
  rcases append_eq_ok happend with ⟨rfl, rfl⟩ | ⟨entry, hhead, hfirst, hlast, rfl⟩
  · cases hrem
    cases hins
    exact h
  · rw [removeOverwritten, hhead] at hrem
    obtain ⟨hinner, hmeta, hrows⟩ := removeEntries_spec hrem h.entries
    simp only [decide_eq_true_eq, not_le] at hrows
    have hinc := pairwise_append_entries h.increasing hents hhead
    obtain ⟨hinner', hmeta', hrows'⟩ := insertEntries_spec hins hrows hinc hwords
    rw [hinner] at hinner' hfirst hlast
    refine h.of_entries (hmeta.trans hmeta') hinner' hrows' hinc ?_
    exact startsAfter_append (firstIndex_eq_iff_startsAfter.mp h.startsAfterSnapshot) h.increasing
      hhead hfirst hlast

theorem durable_saveSnapshot {preserve : ℕ} (h : Durable protobuf store)
    (hstarts : StartsAfter snapshot.metadata.index
      (store.inner.retainedEntriesAfterSnapshot snapshot.metadata.index preserve))
    (hret : Returns (saveSnapshot protobuf snapshot preserve) store result store') :
    Durable protobuf store' := by
  simp only [saveSnapshot, returns_get_bind_iff, returns_liftExcept_bind_iff, writeDb, writeInner,
    returns_modify_bind_iff, returns_modify_iff] at hret
  obtain ⟨batch, hbatch, rfl⟩ := hret
  have hsub : (store.inner.retainedEntriesAfterSnapshot snapshot.metadata.index preserve).Sublist
      store.inner.entries := (drop_sublist _ _).trans filter_sublist
  have hinc := h.increasing.sublist hsub
  obtain ⟨hsnap, hconf, hhard, happ, hrows⟩ :=
    applyBatch_snapshotBatch hbatch hinc fun entry hentry ↦ h.entries.word (hsub.subset hentry)
  exact
    { hardState := .inr hhard
      confState := .inr hconf
      snapshot := .inr hsnap
      applied := h.applied.of_get_eq happ
      entries := hrows
      increasing := hinc
      startsAfterSnapshot := firstIndex_eq_iff_startsAfter.mpr hstarts
      term := le_max_right _ _
      commit := le_max_right _ _
      confStateOfSnapshot := by
        intro hnone
        obtain ⟨bytes, hbytes, -⟩ := hconf
        exact absurd (hbytes.symm.trans hnone) (Option.some_ne_none _) }

theorem durable_apply {op : RaftLogOp} (h : Durable protobuf store) (hwords : op.Words)
    (hop : Reopenable store.inner op) (hret : Returns (apply protobuf op) store result store') :
    Durable protobuf store' := by
  cases op with
  | saveHardState =>
    simp only [apply, saveHardState, writeInner, writeDb, returns_modify_bind_iff,
      returns_liftExcept_bind_iff, returns_modify_iff] at hret
    obtain ⟨bytes, hbytes, rfl⟩ := hret
    exact h.of_hardState hbytes hop.1 hop.2
  | setCommit =>
    simp only [apply, setCommit, writeInner, writeDb, returns_get_bind_iff, returns_modify_bind_iff,
      returns_liftExcept_bind_iff, returns_modify_iff] at hret
    obtain ⟨bytes, hbytes, rfl⟩ := hret
    exact h.of_hardState hbytes h.term hop
  | saveConfState => exact durable_saveConfState h hret
  | append => exact durable_append h hwords hop hret
  | truncateSuffix => exact durable_truncateSuffix h hret
  | saveSnapshot => exact durable_saveSnapshot h hop hret
  | compactTo => exact durable_compactTo h hop hret
  | markApplied => exact durable_markApplied h hwords hop hret

theorem durable_empty (protobuf : Protobuf) : Durable protobuf {} where
  hardState := .inl ⟨rfl, rfl⟩
  confState := .inl ⟨rfl, rfl⟩
  snapshot := .inl ⟨rfl, rfl⟩
  applied := .inl ⟨rfl, rfl⟩
  entries := .nil
  increasing := .nil
  startsAfterSnapshot := rfl
  term := le_rfl
  commit := le_rfl
  confStateOfSnapshot := fun _ ↦ rfl

/-- Assumes: a run of successful operations on an empty store, all of them `Reopenable` in the state
they start from. Reopening the store succeeds and gives the hard state, the configuration, the
snapshot, the retained entries and the applied index that the store had. -/
theorem reopen_of_run {ops : List RaftLogOp} {store : SledRaftLogStore}
    (hwords : ∀ op ∈ ops, op.Words)
    (halong : Along (fallibleStep (apply protobuf))
      (fun store op ↦ Reopenable store.inner op) {} ops)
    (hrun : run (fallibleStep (apply protobuf)) {} ops = some store) :
    ∃ reopened, openSled protobuf store.db = .ok reopened ∧
      reopened.inner.hardState = store.inner.hardState ∧
      reopened.inner.confState = store.inner.confState ∧
      reopened.inner.snapshot = store.inner.snapshot ∧
      reopened.inner.entries = store.inner.entries ∧
      reopened.inner.appliedIndex = store.inner.appliedIndex := by
  have hall := (along_of_forall_mem (fun op hop _ ↦ hwords op hop) _).and halong
  have h : Durable protobuf store := by
    refine run_invariant ?_ (durable_empty protobuf) hall hrun
    rintro s op s' ⟨hword, hop⟩ hs hstep
    obtain ⟨result, hret⟩ := fallibleStep_eq_some_iff.mp hstep
    exact durable_apply hs hword hop hret
  refine ⟨{ inner := { store.inner with snapshotUnavailableOnce := false }, db := store.db }, ?_,
    rfl, rfl, rfl, rfl, rfl⟩
  rw [openSled, replayFromSled_of_durable h]
  rfl

end SledRaftLogStore

/-- The codec that knows these messages and their bytes. -/
def MessageCodec.ofTable {M : Type} [DecidableEq M] (table : List (M × Bytes))
    (hdistinct : (table.map Prod.snd).Nodup) (hfits : ∀ row ∈ table, row.2.length < 2 ^ 63) :
    MessageCodec M where
  writeToBytes message :=
    match table.find? (·.1 = message) with
    | some row => .ok row.2
    | none => .error "unknown message"
  parseFromBytes bytes :=
    match table.find? (·.2 = bytes) with
    | some row => .ok row.1
    | none => .error "unknown bytes"
  parse_write message bytes hwrite := by
    split at hwrite
    · rename_i row hrow
      cases hwrite
      have hmessage := List.find?_some hrow
      have hsome : (table.find? (·.2 = row.2)).isSome := by
        rw [List.find?_isSome]
        exact ⟨row, mem_of_find?_eq_some hrow, decide_eq_true rfl⟩
      obtain ⟨other, hother⟩ := Option.isSome_iff_exists.mp hsome
      have hbytes : other.2 = row.2 := by simpa using List.find?_some hother
      have hsame : other = row := inj_on_of_nodup_map hdistinct
        (mem_of_find?_eq_some hother) (mem_of_find?_eq_some hrow) hbytes
      rw [hother, hsame]
      exact congrArg Except.ok (of_decide_eq_true hmessage)
    · cases hwrite
  length_write message bytes hwrite := by
    split at hwrite
    · rename_i row hrow
      cases hwrite
      exact hfits row (mem_of_find?_eq_some hrow)
    · cases hwrite

/-- Messages with few fields set, as the raft library writes them. -/
def fewMessages : Protobuf where
  entry := .ofTable [({ index := 1 }, [0x18, 1]), ({ index := 2 }, [0x18, 2]),
    ({ index := 3 }, [0x18, 3])] (by decide) (by decide)
  hardState := .ofTable [({}, []), ({ commit := 1 }, [0x18, 1])] (by decide) (by decide)
  confState := .ofTable [({}, [])] (by decide) (by decide)
  snapshot :=
    .ofTable [({ metadata := { index := 1 } }, [0x12, 2, 0x10, 1])] (by decide) (by decide)

namespace SledRaftLogStore

/-- Two entries, applied, a snapshot at the first and a compaction up to the second. -/
def snapshotThenCompact : List RaftLogOp :=
  [.append [{ index := 1 }, { index := 2 }], .markApplied 2,
    .saveSnapshot { metadata := { index := 1 } } 1, .compactTo 2]

theorem reopen_snapshotThenCompact :
    ∃ store reopened, run (fallibleStep (apply fewMessages)) {} snapshotThenCompact = some store ∧
      openSled fewMessages store.db = .ok reopened ∧
      reopened.inner.snapshot.metadata.index = 1 ∧ reopened.inner.appliedIndex = 2 ∧
      reopened.inner.entries = store.inner.entries := by
  obtain ⟨store, hrun⟩ : ∃ store, run (fallibleStep (apply fewMessages)) {} snapshotThenCompact =
      some store := ⟨_, rfl⟩
  obtain ⟨reopened, hopen, -, -, hsnap, hents, happ⟩ :=
    reopen_of_run (by decide) (by decide +kernel) hrun
  refine ⟨store, reopened, hrun, hopen, ?_, ?_, hents⟩
  · rw [hsnap]
    cases hrun
    rfl
  · rw [happ]
    cases hrun
    rfl

/-- Three ways in which a store does not reopen as it was: after a compaction beyond the snapshot it
does not open at all; an applied index that was marked again at a lower index goes back to it; and a
commit index below the snapshot is raised to it. -/
theorem reopen_differs :
    (∃ store, run (fallibleStep (apply fewMessages)) {}
        [.append [{ index := 1 }, { index := 2 }, { index := 3 }], .markApplied 3, .compactTo 3] =
          some store ∧
      (openSled fewMessages store.db).map (·.inner.entries) =
        .error ⟨"append leaves a gap: last 0, append 3"⟩) ∧
    (∃ store, run (fallibleStep (apply fewMessages)) {} [.markApplied 3, .markApplied 1] =
        some store ∧
      store.inner.appliedIndex = 3 ∧
      (openSled fewMessages store.db).map (·.inner.appliedIndex) = .ok 1) ∧
    ∃ store, run (fallibleStep (apply fewMessages)) {}
        [.saveSnapshot { metadata := { index := 1 } } 0, .setCommit 0] = some store ∧
      store.inner.hardState.commit = 0 ∧
      (openSled fewMessages store.db).map (·.inner.hardState.commit) = .ok 1 :=
  ⟨⟨_, rfl, by decide +kernel⟩, ⟨_, rfl, by decide +kernel⟩, ⟨_, rfl, by decide +kernel⟩⟩

end SledRaftLogStore

end HydraCache.Raft
