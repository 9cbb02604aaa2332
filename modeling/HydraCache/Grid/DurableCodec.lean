import HydraCache.Grid.Record
import HydraCache.Lib.Cursor
import HydraCache.Lib.Text

/-!
# How a record is written to disk

The durable value store writes each record under its key as one byte string: the length of the
payload, and then the payload, with a magic word, the format, the key, the record and a checksum
over it (`encodeRecord`). Reading it back checks each of these and that nothing is left over
(`decodeRecord`).

The accepted strings are exactly the written ones (`accepted_iff_written`): a string is read as a
record exactly when the record can be stored (`Storable`) and the string is what the encoder writes
for it. The encoder writes a record exactly when its payload is shorter than 2³² bytes. The lengths
of the key and of the value do not decide that alone (`encodeRecord_refuses_payload`). The checksum
catches every change of one byte but that of the kind of the state (`decodeRecord_set_eq_error`).
-/

set_option autoImplicit false

namespace HydraCache.Grid

open Lib ReplicatedValueRecord Reader List Cursor

/-! ### The checksum of a record -/

def replicatedValueRecordFormatVersion : ℕ := 1

def replicatedValueRecordChecksumFormatVersion : ℕ := 1

def ReplicatedSlot.checksumBytes : ReplicatedSlot → Bytes
  | .value sealedBytes version => 1 :: (littleEndian 8 version ++ sealedBytes)
  | .tombstone version gcEligibleAfter =>
    2 :: (littleEndian 8 version ++ littleEndian 8 (gcEligibleAfter.getD maxWord))

/-- The FNV-1a hash of the fields of the record. -/
def ReplicatedValueRecord.artifactChecksum (record : ReplicatedValueRecord) : ℕ :=
  (fnv1a (littleEndian 4 replicatedValueRecordFormatVersion ++ littleEndian 4 record.partition ++
    littleEndian 8 record.version ++ littleEndian 8 record.epoch ++
    record.state.checksumBytes)).toNat

inductive ScrubErrorKind where
  | unsupportedChecksumFormat (found : ℕ)
  | checksumMismatch (expected actual : ℕ)
deriving DecidableEq

/-- The error as the source prints it for debugging. -/
def ScrubErrorKind.debug : ScrubErrorKind → String
  | .unsupportedChecksumFormat found =>
    "UnsupportedChecksumFormat \x7b found: " ++ decimal found ++ " \x7d"
  | .checksumMismatch expected actual =>
    "ChecksumMismatch \x7b expected: " ++ decimal expected ++ ", actual: " ++
      decimal actual ++ " \x7d"

structure ChecksummedReplicatedValueRecord where
  checksumFormat : ℕ
  record : ReplicatedValueRecord
  checksum : ℕ

namespace ChecksummedReplicatedValueRecord

def «seal» (record : ReplicatedValueRecord) : ChecksummedReplicatedValueRecord where
  checksumFormat := replicatedValueRecordChecksumFormatVersion
  record
  checksum := record.artifactChecksum

def verify (envelope : ChecksummedReplicatedValueRecord) : Except ScrubErrorKind Unit :=
  if envelope.checksumFormat ≠ replicatedValueRecordChecksumFormatVersion then
    .error (.unsupportedChecksumFormat envelope.checksumFormat)
  else if envelope.record.artifactChecksum ≠ envelope.checksum then
    .error (.checksumMismatch envelope.checksum envelope.record.artifactChecksum)
  else .ok ()

end ChecksummedReplicatedValueRecord

/-! ### Writing -/

def durableValueFormatVersion : ℕ := 1

def recordMagic : Bytes := utf8 "HCDV"

def stateValue : ℕ := 1

def stateTombstone : ℕ := 2

/-- The epoch that stands for none. -/
def noneEpoch : ℕ := maxWord

def writeBytes (bytes : Bytes) : Except ValueStoreError Bytes :=
  if bytes.length < 2 ^ 32 then .ok (littleEndian 4 bytes.length ++ bytes)
  else .error ⟨"durable value field too large"⟩

def encodeSlot : ReplicatedSlot → Except ValueStoreError Bytes
  | .value value version => do
    let field ← writeBytes value
    .ok (littleEndian 1 stateValue ++ littleEndian 8 version ++ field)
  | .tombstone version gcEligibleAfter =>
    .ok (littleEndian 1 stateTombstone ++ littleEndian 8 version ++
      littleEndian 8 (gcEligibleAfter.getD noneEpoch))

def encodeRecord (key : Key) (record : ReplicatedValueRecord) : Except ValueStoreError Bytes := do
  let envelope := ChecksummedReplicatedValueRecord.seal record
  let keyField ← writeBytes (utf8 key)
  let slot ← encodeSlot record.state
  let payload := recordMagic ++ littleEndian 4 durableValueFormatVersion ++ keyField ++
    littleEndian 4 record.partition ++ littleEndian 8 record.version ++
    littleEndian 8 record.epoch ++ slot ++ littleEndian 4 envelope.checksumFormat ++
    littleEndian 8 envelope.checksum
  if payload.length < 2 ^ 32 then .ok (littleEndian 4 payload.length ++ payload)
  else .error ⟨"durable value record payload too large"⟩

/-! ### Reading -/

def cursorFaults : Faults ValueStoreError where
  overflow := ⟨"durable value record cursor overflow"⟩
  truncated := ⟨"truncated durable value record"⟩
  notUtf8 := ⟨"durable value string field is not utf-8"⟩

section

variable (expectedKey : Key)

def readSlot (kind : ℕ) : Reader ValueStoreError ReplicatedSlot :=
  if kind = stateValue then do
    let version ← number cursorFaults 8
    let value ← field cursorFaults
    pure (.value value version)
  else if kind = stateTombstone then do
    let version ← number cursorFaults 8
    let gcEpoch ← number cursorFaults 8
    pure (.tombstone version (if gcEpoch ≠ noneEpoch then some gcEpoch else none))
  else
    throw
      ⟨"invalid durable value state kind " ++ decimal kind ++ " for key '" ++ expectedKey ++ "'"⟩

/-- The length in front, which is that of all the rest. -/
def readLength : Reader ValueStoreError Unit := do
  let payloadLength ← number cursorFaults 4
  let cursor ← get
  ensure (cursor.rest.length = payloadLength)
    ⟨"durable value record length mismatch for key '" ++ expectedKey ++ "'"⟩

/-- The magic word, the format and the key. -/
def readHeader : Reader ValueStoreError Unit := do
  let magic ← take cursorFaults 4
  ensure (magic = recordMagic)
    ⟨"invalid durable value record magic for key '" ++ expectedKey ++ "'"⟩
  let format ← number cursorFaults 4
  ensure (format = durableValueFormatVersion)
    ⟨"unsupported durable value record format " ++ decimal format ++ " for key '" ++ expectedKey ++
      "'"⟩
  let encodedKey ← text cursorFaults
  ensure (encodedKey = expectedKey)
    ⟨"durable value record key mismatch: expected '" ++ expectedKey ++ "', found '" ++ encodedKey ++
      "'"⟩

/-- The fields of the record. -/
def readFields : Reader ValueStoreError ReplicatedValueRecord := do
  let partition ← number cursorFaults 4
  let version ← number cursorFaults 8
  let epoch ← number cursorFaults 8
  let kind ← number cursorFaults 1
  let state ← readSlot expectedKey kind
  pure { partition, version, epoch, state }

/-- The checksum, with nothing after it. -/
def readChecksum (record : ReplicatedValueRecord) : Reader ValueStoreError ReplicatedValueRecord :=
  do
  let checksumFormat ← number cursorFaults 4
  let checksum ← number cursorFaults 8
  let cursor ← get
  ensure (cursor.rest = []) ⟨"trailing durable value record bytes for key '" ++ expectedKey ++ "'"⟩
  let envelope : ChecksummedReplicatedValueRecord := { checksumFormat, record, checksum }
  match envelope.verify with
  | .ok () => pure envelope.record
  | .error error => throw ⟨"durable value checksum error: " ++ error.debug⟩

def readRecord : Reader ValueStoreError ReplicatedValueRecord := do
  readLength expectedKey
  readHeader expectedKey
  let record ← readFields expectedKey
  readChecksum expectedKey record

end

def decodeRecord (expectedKey : Key) (bytes : Bytes) :
    Except ValueStoreError ReplicatedValueRecord :=
  ((readRecord expectedKey).run { rest := bytes }).map Prod.fst

/-! ### What is written is what is read -/

/-- The numbers of the slot are 64-bit words, and the epoch that stands for none is not an epoch. -/
def ReplicatedSlot.Storable : ReplicatedSlot → Prop
  | .value _ version => version < 2 ^ 64
  | .tombstone version gcEligibleAfter =>
    version < 2 ^ 64 ∧ ∀ epoch ∈ gcEligibleAfter, epoch < noneEpoch

/-- The partition is a 32-bit word, the other numbers are 64-bit words, and the epoch that stands
for none is not an epoch. -/
structure ReplicatedValueRecord.Storable (record : ReplicatedValueRecord) : Prop where
  partition : record.partition < 2 ^ 32
  version : record.version < 2 ^ 64
  epoch : record.epoch < 2 ^ 64
  state : record.state.Storable

def ReplicatedSlot.kind : ReplicatedSlot → ℕ
  | .value _ _ => stateValue
  | .tombstone _ _ => stateTombstone

/-- The fields of a slot after its kind. -/
def ReplicatedSlot.bytes : ReplicatedSlot → Bytes
  | .value sealedBytes version => littleEndian 8 version ++ fieldBytes sealedBytes
  | .tombstone version gcEligibleAfter =>
    littleEndian 8 version ++ littleEndian 8 (gcEligibleAfter.getD noneEpoch)

def headerBytes (key : Key) : Bytes :=
  recordMagic ++ littleEndian 4 durableValueFormatVersion ++ fieldBytes (utf8 key)

def ReplicatedValueRecord.bytes (record : ReplicatedValueRecord) : Bytes :=
  littleEndian 4 record.partition ++ littleEndian 8 record.version ++
    littleEndian 8 record.epoch ++ littleEndian 1 record.state.kind ++ record.state.bytes

def checksumBytes (record : ReplicatedValueRecord) : Bytes :=
  littleEndian 4 replicatedValueRecordChecksumFormatVersion ++
    littleEndian 8 record.artifactChecksum

/-- The payload of a record. -/
def recordPayload (key : Key) (record : ReplicatedValueRecord) : Bytes :=
  headerBytes key ++ record.bytes ++ checksumBytes record

variable {key : Key} {record : ReplicatedValueRecord} {slot : ReplicatedSlot} {bytes : Bytes}
  {cursor next : Cursor}

theorem writeBytes_eq_ok_iff {written : Bytes} :
    writeBytes bytes = .ok written ↔ bytes.length < 2 ^ 32 ∧ written = fieldBytes bytes := by
  unfold writeBytes fieldBytes
  split_ifs with h
  · rw [Except.ok.injEq]
    exact ⟨fun heq ↦ ⟨h, heq.symm⟩, fun heq ↦ heq.2.symm⟩
  · exact iff_of_false nofun fun hfits ↦ h hfits.1

/-- The value of a slot is a field. -/
def ReplicatedSlot.FieldFits : ReplicatedSlot → Prop
  | .value sealedBytes _ => sealedBytes.length < 2 ^ 32
  | .tombstone _ _ => True

theorem encodeSlot_eq_ok_iff {written : Bytes} :
    encodeSlot slot = .ok written ↔
      slot.FieldFits ∧ written = littleEndian 1 slot.kind ++ slot.bytes := by
  cases slot with
  | value =>
    simp only [encodeSlot, bind_eq_ok_iff, writeBytes_eq_ok_iff, ReplicatedSlot.FieldFits,
      ReplicatedSlot.kind, ReplicatedSlot.bytes, Except.ok.injEq, append_assoc]
    constructor
    · rintro ⟨field, ⟨hfits, rfl⟩, rfl⟩
      exact ⟨hfits, rfl⟩
    · rintro ⟨hfits, rfl⟩
      exact ⟨_, ⟨hfits, rfl⟩, rfl⟩
  | tombstone =>
    simp [encodeSlot, ReplicatedSlot.FieldFits, ReplicatedSlot.kind, ReplicatedSlot.bytes, eq_comm]

/-- A payload that is short enough has fields that are. -/
theorem fields_of_length_recordPayload (h : (recordPayload key record).length < 2 ^ 32) :
    (utf8 key).length < 2 ^ 32 ∧ record.state.FieldFits := by
  simp only [recordPayload, headerBytes, bytes, fieldBytes, length_append, length_littleEndian] at h
  refine ⟨by omega, ?_⟩
  cases hstate : record.state with
  | value sealedBytes =>
    rw [hstate] at h
    simp only [ReplicatedSlot.bytes, fieldBytes, length_append, length_littleEndian] at h
    change sealedBytes.length < 2 ^ 32
    omega
  | tombstone => trivial

/-- The payload as the encoder puts it together. -/
theorem recordPayload_eq (key : Key) (record : ReplicatedValueRecord) :
    recordPayload key record =
      recordMagic ++ littleEndian 4 durableValueFormatVersion ++ fieldBytes (utf8 key) ++
        littleEndian 4 record.partition ++ littleEndian 8 record.version ++
        littleEndian 8 record.epoch ++ (littleEndian 1 record.state.kind ++ record.state.bytes) ++
        littleEndian 4 (ChecksummedReplicatedValueRecord.seal record).checksumFormat ++
        littleEndian 8 (ChecksummedReplicatedValueRecord.seal record).checksum := by
  simp only [recordPayload, headerBytes, bytes, checksumBytes,
    ChecksummedReplicatedValueRecord.seal, append_assoc]

/-- The encoder writes a record exactly when its payload is short enough. -/
theorem encodeRecord_eq_ok_iff :
    encodeRecord key record = .ok bytes ↔
      (recordPayload key record).length < 2 ^ 32 ∧
        bytes = fieldBytes (recordPayload key record) := by
  simp only [encodeRecord, bind_eq_ok_iff, writeBytes_eq_ok_iff, encodeSlot_eq_ok_iff]
  constructor
  · rintro ⟨keyField, ⟨hkey, rfl⟩, slot, ⟨hslot, rfl⟩, h⟩
    rw [← recordPayload_eq] at h
    split_ifs at h with hlen
    cases h
    exact ⟨hlen, rfl⟩
  · rintro ⟨hlen, rfl⟩
    obtain ⟨hkey, hslot⟩ := fields_of_length_recordPayload hlen
    refine ⟨_, ⟨hkey, rfl⟩, _, ⟨hslot, rfl⟩, ?_⟩
    rw [← recordPayload_eq]
    exact if_pos hlen

/-- The epoch that is read from a word is written as the word. -/
theorem getD_epochRead {gcEpoch : ℕ} (hword : gcEpoch < 2 ^ 64) :
    (∀ epoch ∈ (if gcEpoch ≠ noneEpoch then some gcEpoch else none), epoch < noneEpoch) ∧
      (if gcEpoch ≠ noneEpoch then some gcEpoch else none).getD noneEpoch = gcEpoch := by
  by_cases h : gcEpoch = noneEpoch
  · rw [if_neg (not_not.mpr h)]
    refine ⟨?_, h.symm⟩
    rintro epoch ⟨⟩
  · rw [if_pos h]
    refine ⟨?_, rfl⟩
    rintro epoch ⟨⟩
    exact Nat.lt_of_le_of_ne (Nat.le_sub_one_of_lt hword) h

/-- An epoch that does not stand for none is read back. -/
theorem epochRead_getD {gcEligibleAfter : Option ℕ}
    (h : ∀ epoch ∈ gcEligibleAfter, epoch < noneEpoch) :
    gcEligibleAfter.getD noneEpoch < 2 ^ 64 ∧
      (if gcEligibleAfter.getD noneEpoch ≠ noneEpoch then some (gcEligibleAfter.getD noneEpoch)
        else none) = gcEligibleAfter := by
  cases gcEligibleAfter with
  | none => exact ⟨by decide, if_neg (not_not.mpr rfl)⟩
  | some epoch =>
    have hepoch : epoch < noneEpoch := h epoch rfl
    exact ⟨hepoch.trans (by decide), if_pos hepoch.ne⟩

theorem run_readSlot_eq_ok_iff {kind : ℕ} :
    (readSlot key kind).run cursor = .ok (slot, next) ↔
      kind = slot.kind ∧ slot.Storable ∧ slot.FieldFits ∧ cursor.Moves slot.bytes next := by
  unfold readSlot
  split_ifs with hvalue htomb
  · simp only [run_bind_eq_ok_iff, run_number_eq_ok_iff, run_field_eq_ok_iff, run_pure_eq_ok_iff]
    constructor
    · rintro ⟨version, middle, ⟨hver, hmoves⟩, sealedBytes, last, ⟨hlen, hfield⟩, rfl, rfl⟩
      exact ⟨hvalue, hver, hlen, moves_append_iff.mpr ⟨middle, hmoves, hfield⟩⟩
    · rintro ⟨hkind, hstorable, hfits, hmoves⟩
      cases slot with
      | tombstone =>
        have hdiffer : stateValue ≠ stateTombstone := by decide
        exact absurd (hvalue.symm.trans hkind) hdiffer
      | value sealedBytes version =>
        obtain ⟨middle, hver, hfield⟩ := moves_append_iff.mp hmoves
        exact ⟨version, middle, ⟨hstorable, hver⟩, sealedBytes, next, ⟨hfits, hfield⟩, rfl, rfl⟩
  · simp only [run_bind_eq_ok_iff, run_number_eq_ok_iff, run_pure_eq_ok_iff]
    constructor
    · rintro ⟨version, middle, ⟨hver, hmoves⟩, gcEpoch, last, ⟨hword, hgc⟩, rfl, rfl⟩
      obtain ⟨hepoch, hwrit⟩ := getD_epochRead hword
      refine ⟨htomb, ⟨hver, hepoch⟩, trivial, ?_⟩
      rw [ReplicatedSlot.bytes, hwrit]
      exact moves_append_iff.mpr ⟨middle, hmoves, hgc⟩
    · rintro ⟨hkind, hstorable, -, hmoves⟩
      cases slot with
      | value => exact absurd hkind hvalue
      | tombstone version =>
        obtain ⟨middle, hver, hgc⟩ := moves_append_iff.mp hmoves
        obtain ⟨hword, hread⟩ := epochRead_getD hstorable.2
        refine ⟨version, middle, ⟨hstorable.1, hver⟩, _, next, ⟨hword, hgc⟩, ?_, rfl⟩
        rw [hread]
  · refine iff_of_false nofun fun h ↦ ?_
    cases slot with
    | value => exact hvalue h.1
    | tombstone => exact htomb h.1

theorem verify_eq_ok_iff {envelope : ChecksummedReplicatedValueRecord} :
    envelope.verify = .ok () ↔
      envelope.checksumFormat = replicatedValueRecordChecksumFormatVersion ∧
        envelope.checksum = envelope.record.artifactChecksum := by
  unfold ChecksummedReplicatedValueRecord.verify
  split_ifs with hfmt hsum
  · exact iff_of_false nofun fun h ↦ hfmt h.1
  · exact iff_of_false nofun fun h ↦ hsum h.2.symm
  · exact iff_of_true rfl ⟨not_not.mp hfmt, (not_not.mp hsum).symm⟩

theorem kind_lt (slot : ReplicatedSlot) : slot.kind < 256 ^ 1 := by
  have hkinds : stateValue < 256 ^ 1 ∧ stateTombstone < 256 ^ 1 := by decide
  cases slot with
  | value => exact hkinds.1
  | tombstone => exact hkinds.2

theorem run_readLength_eq_ok_iff {u : Unit} :
    (readLength key).run cursor = .ok (u, next) ↔
      next.rest.length < 256 ^ 4 ∧ cursor.Moves (littleEndian 4 next.rest.length) next := by
  simp only [readLength, run_bind_eq_ok_iff, run_number_eq_ok_iff, run_get_eq_ok_iff,
    run_ensure_eq_ok_iff]
  constructor
  · rintro ⟨payloadLength, _, hlen, _, _, ⟨rfl, rfl⟩, rfl, rfl⟩
    exact hlen
  · intro hlen
    exact ⟨_, next, hlen, next, next, ⟨rfl, rfl⟩, rfl, rfl⟩

theorem run_readHeader_eq_ok_iff {u : Unit} :
    (readHeader key).run cursor = .ok (u, next) ↔
      (utf8 key).length < 256 ^ 4 ∧ cursor.Moves (headerBytes key) next := by
  simp only [readHeader, headerBytes, run_bind_eq_ok_iff, run_take_eq_ok_iff, run_number_eq_ok_iff,
    run_ensure_eq_ok_iff, run_text_eq_ok_iff, moves_append_iff]
  constructor
  · rintro ⟨_, c₁, ⟨-, hmagic⟩, _, _, ⟨rfl, rfl⟩, _, c₂, ⟨-, hfmt⟩, _, _, ⟨rfl, rfl⟩,
      _, _, ⟨hfits, hkey⟩, rfl, rfl⟩
    exact ⟨hfits, _, ⟨_, hmagic, hfmt⟩, hkey⟩
  · rintro ⟨hfits, c₂, ⟨c₁, hmagic, hfmt⟩, hkey⟩
    exact ⟨recordMagic, c₁, ⟨rfl, hmagic⟩, (), c₁, ⟨rfl, rfl⟩, _, c₂, ⟨by decide, hfmt⟩, (), c₂,
      ⟨rfl, rfl⟩, key, next, ⟨hfits, hkey⟩, rfl, rfl⟩

theorem run_readFields_eq_ok_iff :
    (readFields key).run cursor = .ok (record, next) ↔
      record.Storable ∧ record.state.FieldFits ∧ cursor.Moves record.bytes next := by
  simp only [readFields, bytes, run_bind_eq_ok_iff, run_number_eq_ok_iff,
    run_readSlot_eq_ok_iff, run_pure_eq_ok_iff, moves_append_iff]
  constructor
  · rintro ⟨partition, c₁, ⟨hpart, h₁⟩, version, c₂, ⟨hver, h₂⟩, epoch, c₃, ⟨hepoch, h₃⟩,
      kind, c₄, ⟨-, h₄⟩, state, c₅, ⟨rfl, hstate, hfits, h₅⟩, rfl, rfl⟩
    exact ⟨⟨hpart, hver, hepoch, hstate⟩, hfits, c₄, ⟨c₃, ⟨c₂, ⟨c₁, h₁, h₂⟩, h₃⟩, h₄⟩, h₅⟩
  · rintro ⟨hstorable, hfits, c₄, ⟨c₃, ⟨c₂, ⟨c₁, h₁, h₂⟩, h₃⟩, h₄⟩, h₅⟩
    exact ⟨_, c₁, ⟨hstorable.partition, h₁⟩, _, c₂, ⟨hstorable.version, h₂⟩, _, c₃,
      ⟨hstorable.epoch, h₃⟩, _, c₄, ⟨kind_lt record.state, h₄⟩, _, next,
      ⟨rfl, hstorable.state, hfits, h₅⟩, rfl, rfl⟩

theorem run_readChecksum_eq_ok_iff {found : ReplicatedValueRecord} :
    (readChecksum key record).run cursor = .ok (found, next) ↔
      found = record ∧ cursor.Moves (checksumBytes record) next ∧ next.rest = [] := by
  simp only [readChecksum, checksumBytes, run_bind_eq_ok_iff, run_number_eq_ok_iff,
    run_get_eq_ok_iff, run_ensure_eq_ok_iff, moves_append_iff]
  constructor
  · rintro ⟨checksumFormat, c₁, ⟨-, h₁⟩, checksum, c₂, ⟨-, h₂⟩, _, _, ⟨rfl, rfl⟩, _, _,
      ⟨hempty, rfl⟩, hverify⟩
    cases hverif : ChecksummedReplicatedValueRecord.verify { checksumFormat, record, checksum } with
    | error =>
      rw [hverif] at hverify
      cases hverify
    | ok =>
      rw [hverif, run_pure_eq_ok_iff] at hverify
      obtain ⟨rfl, rfl⟩ := hverify
      obtain ⟨hfmt, hsum⟩ := verify_eq_ok_iff.mp hverif
      dsimp only at hfmt hsum
      rw [hfmt] at h₁
      rw [hsum] at h₂
      exact ⟨rfl, ⟨c₁, h₁, h₂⟩, hempty⟩
  · rintro ⟨rfl, ⟨c₁, h₁, h₂⟩, hempty⟩
    refine ⟨_, c₁, ⟨by decide, h₁⟩, _, next, ⟨UInt64.toNat_lt _, h₂⟩, next, next,
      ⟨rfl, rfl⟩, (), next, ⟨hempty, rfl⟩, ?_⟩
    rw [verify_eq_ok_iff.mpr ⟨rfl, rfl⟩]
    rfl

/-- A record is read exactly when it can be stored and the cursor stands before what is written for
it, with nothing after. -/
theorem run_readRecord_eq_ok_iff :
    (readRecord key).run cursor = .ok (record, next) ↔
      record.Storable ∧ (recordPayload key record).length < 2 ^ 32 ∧
        cursor.Moves (fieldBytes (recordPayload key record)) next ∧ next.rest = [] := by
  simp only [readRecord, run_bind_eq_ok_iff, run_readLength_eq_ok_iff, run_readHeader_eq_ok_iff,
    run_readFields_eq_ok_iff, run_readChecksum_eq_ok_iff]
  constructor
  · rintro ⟨_, c₁, ⟨hshort, hlen⟩, _, c₂, ⟨-, hheader⟩, _, c₃, ⟨hfits, -, hfields⟩, rfl,
      hsum, hempty⟩
    have hpay : c₁.Moves (recordPayload key record) next :=
      moves_append_iff.mpr ⟨c₃, moves_append_iff.mpr ⟨c₂, hheader, hfields⟩, hsum⟩
    -- the length in front is that of the payload, since nothing is left over
    have hwhole : c₁.rest = recordPayload key record := by
      rw [hpay.rest, hempty, append_nil]
    rw [hwhole] at hshort hlen
    exact ⟨hfits, hshort, moves_append_iff.mpr ⟨c₁, hlen, hpay⟩, hempty⟩
  · rintro ⟨hfits, hshort, hmoves, hempty⟩
    obtain ⟨hkeyFits, hstateFits⟩ := fields_of_length_recordPayload hshort
    obtain ⟨c₁, hlen, hpay⟩ := moves_append_iff.mp hmoves
    have hwhole : c₁.rest = recordPayload key record := by
      rw [hpay.rest, hempty, append_nil]
    obtain ⟨c₃, hfront, hsum⟩ := moves_append_iff.mp hpay
    obtain ⟨c₂, hheader, hfields⟩ := moves_append_iff.mp hfront
    rw [← hwhole] at hshort hlen
    exact ⟨(), c₁, ⟨hshort, hlen⟩, (), c₂, ⟨hkeyFits, hheader⟩, record, c₃,
      ⟨hfits, hstateFits, hfields⟩, rfl, hsum, hempty⟩

theorem decodeRecord_eq_ok_iff :
    decodeRecord key bytes = .ok record ↔
      record.Storable ∧ encodeRecord key record = .ok bytes := by
  have hrun : decodeRecord key bytes = .ok record ↔
      ∃ next, (readRecord key).run { rest := bytes } = .ok (record, next) := by
    unfold decodeRecord
    rcases (readRecord key).run { rest := bytes } with _ | ⟨found, next⟩ <;> simp [Except.map]
  simp only [hrun, run_readRecord_eq_ok_iff, encodeRecord_eq_ok_iff]
  constructor
  · rintro ⟨next, hfits, hshort, hmoves, hempty⟩
    have hrest : bytes = fieldBytes (recordPayload key record) ++ next.rest := hmoves.rest
    rw [hempty, append_nil] at hrest
    exact ⟨hfits, hshort, hrest⟩
  · rintro ⟨hfits, hshort, rfl⟩
    refine ⟨⟨[], (fieldBytes (recordPayload key record)).length⟩, hfits, hshort, ⟨?_, ?_, ?_⟩, rfl⟩
    · exact (append_nil _).symm
    · exact (Nat.zero_add _).symm
    · change (fieldBytes (recordPayload key record)).length ≤ maxWord
      rw [fieldBytes, length_append, length_littleEndian, maxWord]
      omega

/-- A byte string is read as a record exactly when the record can be stored and the string is what
is written for it under the key. A record is written exactly when its payload is shorter than 2³²
bytes. -/
theorem accepted_iff_written (key : Key) (record : ReplicatedValueRecord) :
    (∀ bytes, decodeRecord key bytes = .ok record ↔
        record.Storable ∧ encodeRecord key record = .ok bytes) ∧
      ((∃ bytes, encodeRecord key record = .ok bytes) ↔
        (recordPayload key record).length < 2 ^ 32) := by
  refine ⟨fun bytes ↦ decodeRecord_eq_ok_iff, ?_⟩
  simp only [encodeRecord_eq_ok_iff]
  exact ⟨fun ⟨_, hshort, _⟩ ↦ hshort, fun hshort ↦ ⟨_, hshort, rfl⟩⟩

/-- A record whose fields fit but whose payload does not is refused. -/
theorem encodeRecord_of_long (hkey : (utf8 key).length < 2 ^ 32) (hstate : record.state.FieldFits)
    (hlong : 2 ^ 32 ≤ (recordPayload key record).length) :
    encodeRecord key record = .error ⟨"durable value record payload too large"⟩ := by
  rw [encodeRecord, writeBytes_eq_ok_iff.mpr ⟨hkey, rfl⟩, encodeSlot_eq_ok_iff.mpr ⟨hstate, rfl⟩,
    ok_bind, ok_bind, ← recordPayload_eq]
  exact if_neg hlong.not_gt

/-- The value is one byte short of 2³², so it is a field; with the rest of the payload it is too
long. -/
theorem encodeRecord_refuses_payload :
    (utf8 "a").length < 2 ^ 32 ∧ (List.replicate (2 ^ 32 - 1) (0 : UInt8)).length < 2 ^ 32 ∧
      (value 0 1 1 (List.replicate (2 ^ 32 - 1) 0)).Storable ∧
      encodeRecord "a" (.value 0 1 1 (List.replicate (2 ^ 32 - 1) 0)) =
        .error ⟨"durable value record payload too large"⟩ := by
  have hvalue : (List.replicate (2 ^ 32 - 1) (0 : UInt8)).length < 2 ^ 32 := by
    rw [length_replicate]
    decide
  have hkey : (utf8 "a").length < 2 ^ 32 := by decide
  have hver : 1 < 2 ^ 64 := by decide
  refine ⟨hkey, hvalue, ⟨by decide, hver, hver, hver⟩, ?_⟩
  refine encodeRecord_of_long hkey hvalue ?_
  simp only [recordPayload, value, bytes, headerBytes,
    checksumBytes, ReplicatedSlot.bytes, fieldBytes, length_append, length_littleEndian,
    length_replicate]
  omega

/-! ### A changed byte -/

/-- Where the kind of the state stands in a written record. -/
def stateKindOffset (key : Key) : ℕ := 4 + (headerBytes key).length + 20

/-- The fields of a record that its checksum covers. -/
def ReplicatedValueRecord.checksumInput (record : ReplicatedValueRecord) : Bytes :=
  littleEndian 4 replicatedValueRecordFormatVersion ++ littleEndian 4 record.partition ++
    littleEndian 8 record.version ++ littleEndian 8 record.epoch ++ record.state.checksumBytes

variable {other : ReplicatedSlot} {read : ReplicatedValueRecord}

/-- Assumes: slots of one kind and one length. The checksum covers what they differ in. -/
theorem mismatches_slot (hkind : slot.kind = other.kind)
    (hlen : slot.bytes.length = other.bytes.length) :
    slot.checksumBytes.length = other.checksumBytes.length ∧
      mismatches slot.checksumBytes other.checksumBytes = mismatches slot.bytes other.bytes := by
  cases slot with
  | value =>
    cases other with
    | value =>
      simp only [ReplicatedSlot.bytes, fieldBytes, length_append, length_littleEndian,
        Nat.add_left_cancel_iff] at hlen
      simp [ReplicatedSlot.checksumBytes, ReplicatedSlot.bytes, fieldBytes, mismatches_cons,
        mismatches_append, hlen]
    | tombstone => cases hkind
  | tombstone =>
    cases other with
    | value => cases hkind
    | tombstone =>
      simp [ReplicatedSlot.checksumBytes, ReplicatedSlot.bytes, mismatches_cons, mismatches_append,
        noneEpoch]

section

variable (hkind : record.state.kind = read.state.kind)
  (hlen : record.bytes.length = read.bytes.length)
include hkind hlen

/-- Assumes: records whose states are of one kind, written at one length. The checksum covers what
they differ in. -/
theorem mismatches_record :
    record.checksumInput.length = read.checksumInput.length ∧
      mismatches record.checksumInput read.checksumInput = mismatches record.bytes read.bytes := by
  have hslot := mismatches_slot hkind (by simpa [bytes] using hlen)
  simp [checksumInput, bytes, mismatches_append, hslot, hkind]

/-- A record is told from every other of its kind that is written at the same length by more than
one byte: where one byte of the fields differs, so does the checksum. -/
theorem mismatches_recordPayload_ne_one :
    mismatches (recordPayload key record) (recordPayload key read) ≠ 1 := by
  obtain ⟨hinput, hfields⟩ := mismatches_record hkind hlen
  have hsplit : mismatches (recordPayload key record) (recordPayload key read) =
      mismatches record.bytes read.bytes +
        mismatches (littleEndian 8 record.artifactChecksum)
          (littleEndian 8 read.artifactChecksum) := by
    simp [recordPayload, checksumBytes, mismatches_append, hlen]
  rw [hsplit, ← hfields]
  intro h
  rcases Nat.eq_zero_or_pos (mismatches record.checksumInput read.checksumInput) with hnone | hsome
  · -- the same fields have the same checksum
    have hsame : record.artifactChecksum = read.artifactChecksum :=
      congrArg (fun input ↦ (fnv1a input).toNat) ((mismatches_eq_zero_iff hinput).mp hnone)
    simp [hnone, hsame, mismatches_self] at h
  · -- one byte of the fields differs, and the written checksums are the same
    have hbytes := (mismatches_eq_zero_iff (by simp)).mp (show mismatches
      (littleEndian 8 record.artifactChecksum) (littleEndian 8 read.artifactChecksum) = 0 by omega)
    have hsame := congrArg ofLittleEndian hbytes
    rw [ofLittleEndian_littleEndian (UInt64.toNat_lt _),
      ofLittleEndian_littleEndian (UInt64.toNat_lt _)]
      at hsame
    exact fnv1aFrom_ne hinput (by omega) (UInt64.toNat_inj.mp hsame)

end

theorem ReplicatedSlot.kind_injective (h : UInt8.ofNat slot.kind = UInt8.ofNat other.kind) :
    slot.kind = other.kind := by
  cases slot <;> cases other <;> simp_all [ReplicatedSlot.kind, stateValue, stateTombstone]

theorem getElem?_stateKindOffset (key : Key) (record : ReplicatedValueRecord) :
    (fieldBytes (recordPayload key record))[stateKindOffset key]? =
      some (UInt8.ofNat record.state.kind) := by
  obtain ⟨front, rest, hsplit, hfront⟩ : ∃ front rest,
      fieldBytes (recordPayload key record) = front ++ UInt8.ofNat record.state.kind :: rest ∧
        front.length = stateKindOffset key := by
    refine ⟨littleEndian 4 (recordPayload key record).length ++ headerBytes key ++
      littleEndian 4 record.partition ++ littleEndian 8 record.version ++
        littleEndian 8 record.epoch,
      record.state.bytes ++ checksumBytes record, ?_, ?_⟩
    · simp [fieldBytes, recordPayload, bytes, littleEndian]
    · simp only [stateKindOffset, length_append, length_littleEndian]
  rw [hsplit, ← hfront, List.getElem?_append_right le_rfl, Nat.sub_self]
  rfl

/-- Assumes: a written record and a byte of it that is not the kind of the state. No other value of
the byte is read as a record. -/
theorem decodeRecord_set_eq_error (h : encodeRecord key record = .ok bytes) {offset : ℕ}
    (hoffset : offset < bytes.length) (hkind : offset ≠ stateKindOffset key) {byte : UInt8}
    (hbyte : bytes[offset]? ≠ some byte) :
    ∃ error, decodeRecord key (bytes.set offset byte) = .error error := by
  cases hdec : decodeRecord key (bytes.set offset byte) with
  | error error => exact ⟨error, rfl⟩
  | ok read =>
    obtain ⟨-, hwrit⟩ := encodeRecord_eq_ok_iff.mp h
    obtain ⟨-, hchg⟩ := encodeRecord_eq_ok_iff.mp (decodeRecord_eq_ok_iff.mp hdec).2
    have hsame : record.state.kind = read.state.kind := by
      have hget := List.getElem?_set_ne hkind (a := byte) (l := bytes)
      rw [hchg, hwrit, getElem?_stateKindOffset, getElem?_stateKindOffset] at hget
      exact (ReplicatedSlot.kind_injective (Option.some.inj hget)).symm
    have hlen : (recordPayload key record).length = (recordPayload key read).length := by
      have := congrArg List.length hchg
      rw [length_set, hwrit] at this
      simpa [fieldBytes] using this
    have hone := mismatches_set hoffset hbyte
    rw [hchg, hwrit, fieldBytes, fieldBytes, mismatches_append (by simp), hlen,
      mismatches_self, Nat.zero_add] at hone
    refine absurd hone (mismatches_recordPayload_ne_one hsame ?_)
    simpa [recordPayload, checksumBytes] using hlen

/-- A byte of the length, and one of the version in the payload. -/
theorem decodeRecord_set_eq_error_of_version : ∃ bytes,
    encodeRecord "k" (.tombstone 0 7 1 none) = .ok bytes ∧
      (∃ error, decodeRecord "k" (bytes.set 0 255) = .error error) ∧
      bytes[21]? = some 7 ∧ ∃ error, decodeRecord "k" (bytes.set 21 8) = .error error := by
  have hwrit := encodeRecord_eq_ok_iff.mpr
    ⟨(by decide +kernel : (recordPayload "k" (.tombstone 0 7 1 none)).length < 2 ^ 32), rfl⟩
  exact ⟨_, hwrit,
    decodeRecord_set_eq_error hwrit (by decide +kernel) (by decide +kernel) (by decide +kernel),
    by decide +kernel,
    decodeRecord_set_eq_error hwrit (by decide +kernel) (by decide +kernel) (by decide +kernel)⟩

end HydraCache.Grid
