import HydraCache.Lib.Fallible
import HydraCache.Lib.OrderedMap
import HydraCache.Raft.LogStore

/-!
# The durable log store

`SledRaftLogStore` keeps the log of `InMemoryRaftLogStore` in memory and beside it on disk, in an
ordered map from byte strings to byte strings: the hard state, the configuration, the snapshot and
the applied index each under a key of their own, and every retained entry under `entryKey` of its
index, so that the order of the keys is the order of the indexes. Opening a store replays the rows
through the operations of the in-memory store (`replayFromSled`).

A method writes to the memory and to the disk one after the other, each method in its own order, and
may fail in between; the model keeps that order (`Fallible`). A snapshot is written in one batch.

Scope. The map on disk does not fail, and the raft library's messages are written and read by a
parameter (`Protobuf`) that reads back what it wrote.
-/

set_option autoImplicit false

namespace HydraCache.Raft

open Lib List

/-! ### Messages as bytes -/

/-- How the messages of one type are written. What was written is read back, and what is written
fits the memory. -/
structure MessageCodec (M : Type) where
  writeToBytes : M → Except String Bytes
  parseFromBytes : Bytes → Except String M
  parse_write : ∀ message bytes, writeToBytes message = .ok bytes →
    parseFromBytes bytes = .ok message
  length_write : ∀ message bytes, writeToBytes message = .ok bytes → bytes.length < 2 ^ 63

structure Protobuf where
  entry : MessageCodec Entry
  hardState : MessageCodec HardState
  confState : MessageCodec ConfState
  snapshot : MessageCodec Snapshot

def encodeMessage {M : Type} (what : String) (codec : MessageCodec M) (message : M) :
    Except RaftStoreError Bytes :=
  (codec.writeToBytes message).mapError fun error ↦ ⟨"failed to encode " ++ what ++ ": " ++ error⟩

def decodeMessage {M : Type} (what : String) (codec : MessageCodec M) (bytes : Bytes) :
    Except RaftStoreError M :=
  (codec.parseFromBytes bytes).mapError fun error ↦ ⟨"failed to decode " ++ what ++ ": " ++ error⟩

variable {bytes : Bytes}

theorem writeToBytes_of_encodeMessage {M : Type} {what : String} {codec : MessageCodec M}
    {message : M} (h : encodeMessage what codec message = .ok bytes) :
    codec.writeToBytes message = .ok bytes := by
  unfold encodeMessage at h
  cases hwrite : codec.writeToBytes message <;> rw [hwrite] at h <;> cases h
  rfl

theorem decodeMessage_of_encodeMessage {M : Type} {what : String} {codec : MessageCodec M}
    {message : M} (h : encodeMessage what codec message = .ok bytes) :
    decodeMessage what codec bytes = .ok message := by
  rw [decodeMessage, codec.parse_write _ _ (writeToBytes_of_encodeMessage h)]
  rfl

section Codec

variable (protobuf : Protobuf) {value : ℕ}

def encodeEntry := encodeMessage "raft entry" protobuf.entry

def decodeEntry := decodeMessage "raft entry" protobuf.entry

def encodeHardState := encodeMessage "hard state" protobuf.hardState

def decodeHardState := decodeMessage "hard state" protobuf.hardState

def encodeConfState := encodeMessage "conf state" protobuf.confState

def decodeConfState := decodeMessage "conf state" protobuf.confState

def encodeU64 (value : ℕ) : Bytes := bigEndian 8 value

section

variable (bytes : Bytes)

def decodeU64 : Except RaftStoreError ℕ :=
  if bytes.length = 8 then .ok (ofBigEndian bytes) else .error ⟨"invalid sled raft u64 value"⟩

def decodeU32 : Except RaftStoreError ℕ :=
  if bytes.length = 4 then .ok (ofBigEndian bytes) else .error ⟨"invalid sled raft u32 value"⟩

theorem decodeU64_encodeU64 (h : value < wordSize) : decodeU64 (encodeU64 value) = .ok value := by
  unfold decodeU64 encodeU64
  rw [if_pos (length_bigEndian 8 value), ofBigEndian_bigEndian h]

/-! ### The snapshot envelope -/

def sledSnapshotEnvelopeMagic : Bytes := utf8 "HCSNAP01"

def sledSnapshotEnvelopeVersion : ℕ := 1

def sledSnapshotEnvelopeHeaderLen : ℕ := 28

def snapshotPayloadChecksum : ℕ := (fnv1a bytes).toNat

def encodeSnapshot (snapshot : Snapshot) : Except RaftStoreError Bytes := do
  let payload ← encodeMessage "raft snapshot" protobuf.snapshot snapshot
  .ok (sledSnapshotEnvelopeMagic ++ bigEndian 4 sledSnapshotEnvelopeVersion ++
    bigEndian 8 payload.length ++ bigEndian 8 (snapshotPayloadChecksum payload) ++ payload)

def decodeSnapshotEnvelope : Except RaftStoreError Snapshot :=
  if bytes.length < sledSnapshotEnvelopeHeaderLen then
    .error ⟨"truncated raft snapshot checksum envelope: expected at least " ++
      decimal sledSnapshotEnvelopeHeaderLen ++ " bytes, got " ++ decimal bytes.length⟩
  else do
    let version ← decodeU32 ((bytes.drop 8).take 4)
    if version ≠ sledSnapshotEnvelopeVersion then
      .error ⟨"unsupported raft snapshot checksum envelope version " ++ decimal version⟩
    else do
      let payloadLen ← decodeU64 ((bytes.drop 12).take 8)
      let expectedChecksum ← decodeU64 ((bytes.drop 20).take 8)
      match checkedAdd maxWord sledSnapshotEnvelopeHeaderLen payloadLen with
      | none => .error ⟨"raft snapshot checksum envelope length overflow"⟩
      | some expectedLen =>
        if bytes.length ≠ expectedLen then
          .error ⟨"truncated raft snapshot checksum envelope: expected " ++ decimal expectedLen ++
            " bytes, got " ++ decimal bytes.length⟩
        else
          let payload := bytes.drop sledSnapshotEnvelopeHeaderLen
          let actualChecksum := snapshotPayloadChecksum payload
          if actualChecksum ≠ expectedChecksum then
            .error ⟨"raft snapshot checksum mismatch: expected " ++ hexadecimal expectedChecksum ++
              ", actual " ++ hexadecimal actualChecksum⟩
          else decodeMessage "raft snapshot" protobuf.snapshot payload

/-- A snapshot in its envelope, or one written before there was an envelope. -/
def decodeSnapshot : Except RaftStoreError Snapshot :=
  if sledSnapshotEnvelopeMagic.isPrefixOf bytes then decodeSnapshotEnvelope protobuf bytes
  else decodeMessage "raft snapshot" protobuf.snapshot bytes

end

theorem length_of_decodeU64 (h : decodeU64 bytes = .ok value) : bytes.length = 8 := by
  unfold decodeU64 at h
  split_ifs at h with hlen
  exact hlen

theorem length_of_decodeU32 (h : decodeU32 bytes = .ok value) : bytes.length = 4 := by
  unfold decodeU32 at h
  split_ifs at h with hlen
  exact hlen

/-- The envelope is opened when each field of its header is what the payload makes it. -/
theorem decodeSnapshotEnvelope_append {version length checksum payload : Bytes}
    (hver : decodeU32 version = .ok sledSnapshotEnvelopeVersion)
    (hlen : decodeU64 length = .ok payload.length)
    (hchecksum : decodeU64 checksum = .ok (snapshotPayloadChecksum payload))
    (hfits : payload.length < 2 ^ 63) :
    decodeSnapshotEnvelope protobuf
        (sledSnapshotEnvelopeMagic ++ (version ++ (length ++ (checksum ++ payload)))) =
      decodeMessage "raft snapshot" protobuf.snapshot payload := by
  have hmagic : sledSnapshotEnvelopeMagic.length = 8 := rfl
  have hvlen := length_of_decodeU32 hver
  have hllen := length_of_decodeU64 hlen
  have hslen := length_of_decodeU64 hchecksum
  generalize sledSnapshotEnvelopeMagic = magic at hmagic ⊢
  generalize hbytes : magic ++ (version ++ (length ++ (checksum ++ payload))) = bytes
  -- where each field of the header stands
  have hversionAt : (bytes.drop 8).take 4 = version := by
    rw [← hbytes, drop_left' hmagic, take_left' hvlen]
  have hlengthAt : (bytes.drop 12).take 8 = length := by
    rw [← hbytes, ← append_assoc, drop_left' (by simp [hmagic, hvlen]), take_left' hllen]
  have hchecksumAt : (bytes.drop 20).take 8 = checksum := by
    rw [← hbytes, ← append_assoc, ← append_assoc, drop_left' (by simp [hmagic, hvlen, hllen]),
      take_left' hslen]
  have hpayloadAt : bytes.drop sledSnapshotEnvelopeHeaderLen = payload := by
    rw [← hbytes, ← append_assoc, ← append_assoc, ← append_assoc]
    refine drop_left' ?_
    simp [hmagic, hvlen, hllen, hslen, sledSnapshotEnvelopeHeaderLen]
  have hblen : bytes.length = sledSnapshotEnvelopeHeaderLen + payload.length := by
    rw [← hbytes]
    simp only [length_append, hmagic, hvlen, hllen, hslen, sledSnapshotEnvelopeHeaderLen]
    omega
  have hsum : checkedAdd maxWord sledSnapshotEnvelopeHeaderLen payload.length =
      some (sledSnapshotEnvelopeHeaderLen + payload.length) := by
    refine if_pos ?_
    simp only [sledSnapshotEnvelopeHeaderLen, maxWord]
    omega
  rw [decodeSnapshotEnvelope, if_neg (hblen ▸ (Nat.le_add_right _ _).not_gt), hversionAt,
    hlengthAt, hchecksumAt, hpayloadAt, hver, hlen, hchecksum]
  dsimp only [bind, Except.bind]
  rw [if_neg (not_not.mpr rfl), hsum]
  dsimp only
  rw [if_neg (not_not.mpr hblen), if_neg (not_not.mpr rfl)]

theorem decodeSnapshot_of_encodeSnapshot {snapshot : Snapshot}
    (h : encodeSnapshot protobuf snapshot = .ok bytes) :
    decodeSnapshot protobuf bytes = .ok snapshot := by
  obtain ⟨payload, hpay, hbytes⟩ := bind_eq_ok_iff.mp h
  cases hbytes
  have hfits : payload.length < 2 ^ 63 :=
    protobuf.snapshot.length_write _ _ (writeToBytes_of_encodeMessage hpay)
  rw [append_assoc, append_assoc, append_assoc, decodeSnapshot, if_pos,
    decodeSnapshotEnvelope_append protobuf rfl ?_ ?_ hfits]
  · exact decodeMessage_of_encodeMessage hpay
  · exact decodeU64_encodeU64 (hfits.trans (by decide))
  · exact decodeU64_encodeU64 (fnv1a payload).toNat_lt
  · exact isPrefixOf_iff_prefix.mpr (prefix_append _ _)

end Codec

/-! ### The store on disk -/

/-- The map on disk. -/
abbrev Sled := OrderedMap Bytes Bytes

def sledHardStateKey : Bytes := utf8 "meta:hard_state"

def sledConfStateKey : Bytes := utf8 "meta:conf_state"

def sledSnapshotKey : Bytes := utf8 "meta:snapshot"

def sledAppliedKey : Bytes := utf8 "meta:applied"

def sledEntryPrefix : Bytes := utf8 "entry:"

def entryKey (index : ℕ) : Bytes := sledEntryPrefix ++ bigEndian 8 index

def isEntryKey (key : Bytes) : Bool := sledEntryPrefix.isPrefixOf key

def decodeEntryIndexKey (key : Bytes) : Except RaftStoreError ℕ :=
  if isEntryKey key then decodeU64 (key.drop sledEntryPrefix.length)
  else .error ⟨"invalid sled raft entry key prefix"⟩

/-- The keys of the entries on disk, in order. -/
def entryKeys (db : Sled) : List Bytes := (db.scan isEntryKey).map Prod.fst

inductive BatchOp where
  | insert (key value : Bytes)
  | remove (key : Bytes)

def applyBatch (db : Sled) (batch : List BatchOp) : Sled :=
  batch.foldl (fun db op ↦
    match op with
    | .insert key value => db.insert key value
    | .remove key => db.remove key) db

structure SledRaftLogStore where
  inner : InMemoryRaftLogStore := {}
  db : Sled := ∅

namespace SledRaftLogStore

variable (protobuf : Protobuf)

/-- A method of the store. -/
abbrev Method := Fallible RaftStoreError SledRaftLogStore

def writeDb (update : Sled → Sled) : Method Unit :=
  modify fun store ↦ { store with db := update store.db }

def writeInner (update : InMemoryRaftLogStore → InMemoryRaftLogStore) : Method Unit :=
  modify fun store ↦ { store with inner := update store.inner }

def tryInner (attempt : InMemoryRaftLogStore → Except RaftStoreError InMemoryRaftLogStore) :
    Method Unit := do
  let store ← get
  let inner ← liftExcept (attempt store.inner)
  writeInner fun _ ↦ inner

/-- Remove the entries whose index is dropped, one after the other. -/
def removeEntries (drop : ℕ → Bool) : Method Unit := do
  let store ← get
  forM (entryKeys store.db) fun key ↦ do
    let index ← liftExcept (decodeEntryIndexKey key)
    writeDb fun db ↦ if drop index then db.remove key else db

def insertEntries (entries : List Entry) : Method Unit :=
  forM entries fun entry ↦ do
    let bytes ← liftExcept (encodeEntry protobuf entry)
    writeDb (·.insert (entryKey entry.index) bytes)

def saveHardState (hardState : HardState) : Method Unit := do
  writeInner (·.saveHardState hardState)
  let bytes ← liftExcept (encodeHardState protobuf hardState)
  writeDb (·.insert sledHardStateKey bytes)

def saveConfState (confState : ConfState) : Method Unit := do
  writeInner (·.saveConfState confState)
  let bytes ← liftExcept (encodeConfState protobuf confState)
  writeDb (·.insert sledConfStateKey bytes)

def removeOverwritten (entries : List Entry) : Method Unit :=
  match entries.head? with
  | some entry => removeEntries (entry.index ≤ ·)
  | none => pure ()

/-- Append entries. Those they overwrite leave the disk first, before the log is looked at. -/
def append (entries : List Entry) : Method Unit := do
  removeOverwritten entries
  tryInner (·.append entries)
  insertEntries protobuf entries

def truncateSuffix (fromIndex : ℕ) : Method Unit := do
  writeInner (·.truncateSuffix fromIndex)
  removeEntries (fromIndex ≤ ·)

/-- What is written with a snapshot: the snapshot, its configuration, the hard state raised to it,
and the retained entries in place of those on disk. -/
def snapshotBatch (store : SledRaftLogStore) (snapshot : Snapshot) (retained : List Entry) :
    Except RaftStoreError (List BatchOp) := do
  let snapshotBytes ← encodeSnapshot protobuf snapshot
  let confStateBytes ← encodeConfState protobuf snapshot.metadata.confState
  let hardStateBytes ← encodeHardState protobuf
    { store.inner.hardState with
      term := max store.inner.hardState.term snapshot.metadata.term
      commit := max store.inner.hardState.commit snapshot.metadata.index }
  let inserts ← retained.mapM fun entry ↦ do
    let bytes ← encodeEntry protobuf entry
    .ok (BatchOp.insert (entryKey entry.index) bytes)
  .ok ([.insert sledSnapshotKey snapshotBytes, .insert sledConfStateKey confStateBytes,
    .insert sledHardStateKey hardStateBytes] ++ (entryKeys store.db).map .remove ++ inserts)

def saveSnapshot (snapshot : Snapshot) (preserveLogEntries : ℕ) : Method Unit := do
  let store ← get
  let retained :=
    store.inner.retainedEntriesAfterSnapshot snapshot.metadata.index preserveLogEntries
  let batch ← liftExcept (snapshotBatch protobuf store snapshot retained)
  writeDb (applyBatch · batch)
  writeInner (·.installSnapshotAfterPersist snapshot retained)

def compactTo (index : ℕ) : Method Unit := do
  tryInner (·.compactTo index)
  removeEntries (· < index)

/-- Mark entries as applied. The index on disk is the one given, not the largest so far. -/
def markApplied (index : ℕ) : Method Unit := do
  writeDb (·.insert sledAppliedKey (encodeU64 index))
  writeInner (·.markApplied index)

def setCommit (commit : ℕ) : Method Unit := do
  let store ← get
  let bytes ← liftExcept (encodeHardState protobuf { store.inner.hardState with commit })
  writeDb (·.insert sledHardStateKey bytes)
  writeInner (·.setCommit commit)

def apply : RaftLogOp → Method Unit
  | .saveHardState hardState => saveHardState protobuf hardState
  | .saveConfState confState => saveConfState protobuf confState
  | .append entries => append protobuf entries
  | .truncateSuffix fromIndex => truncateSuffix fromIndex
  | .saveSnapshot snapshot preserve => saveSnapshot protobuf snapshot preserve
  | .compactTo index => compactTo index
  | .markApplied index => markApplied index
  | .setCommit commit => setCommit protobuf commit

/-- Replay what stands under one key, if anything does. -/
def replayKey {M : Type} (db : Sled) (key : Bytes) (decode : Bytes → Except RaftStoreError M)
    (install : InMemoryRaftLogStore → M → InMemoryRaftLogStore) (inner : InMemoryRaftLogStore) :
    Except RaftStoreError InMemoryRaftLogStore :=
  match db.get key with
  | some bytes => do
    let message ← decode bytes
    .ok (install inner message)
  | none => .ok inner

def replayEntries (inner : InMemoryRaftLogStore) (entries : List Entry) :
    Except RaftStoreError InMemoryRaftLogStore :=
  if entries.isEmpty then .ok inner else inner.append entries

def replayFromSled (db : Sled) : Except RaftStoreError InMemoryRaftLogStore := do
  let inner ← replayKey db sledHardStateKey (decodeHardState protobuf) .saveHardState {}
  let inner ←
    replayKey db sledSnapshotKey (decodeSnapshot protobuf) (·.saveSnapshot · maxWord) inner
  let inner ← replayKey db sledConfStateKey (decodeConfState protobuf) .saveConfState inner
  let entries ← (db.scan isEntryKey).mapM fun row ↦ decodeEntry protobuf row.2
  let inner ← replayEntries inner entries
  replayKey db sledAppliedKey decodeU64 .markApplied inner

/-- Open the store whose rows are on disk. -/
def openSled (db : Sled) : Except RaftStoreError SledRaftLogStore := do
  let inner ← replayFromSled protobuf db
  .ok { inner, db }

end SledRaftLogStore

end HydraCache.Raft
