import HydraCache.Lib.Bytes
import HydraCache.Lib.Run
import HydraCache.Lib.Text

/-!
# Backup artifacts

The two text artifacts of a backup: the manifest of a full backup, which lists the objects with
their lengths and checksums, and the log of the changes shipped after it. Both are lines of fields,
the fields separated by tabs. Names and values are written in hexadecimal, so no field contains a
tab or a line end whatever the name (`encodeHex_safe`), and numbers in decimal.

The results are the two round trips: `BackupManifest.decode_encode` reads a manifest back, and
`PitrLog.decode_of_encode` reads back every log that could be written, that is, one with strictly
increasing sequences and valid keys. Lines (`lines_unlines`), fields (`splitChar_joinChar`), bytes
(`decodeHex_encodeHex`) and numbers (`parseWord_decimal`) are read back one layer at a time.

Scope. Decoders answer as the source does for any bytes, with its errors in its order; that a
damaged artifact is refused is not proved here.
-/

set_option autoImplicit false

namespace HydraCache.Backup

open Lib List

inductive BackupError where
  | invalidName (field : String)
  | missingObject (key : String)
  | corruptObject (key : String)
  | unsupportedManifestFormat (version : ℕ)
  | invalidManifest (reason : String)
deriving DecidableEq

/-- A hash of the parts that also sees where one part ends. -/
def checksum (parts : List Bytes) : UInt64 :=
  parts.foldl (fun hash part ↦ (fnv1aFrom hash part ^^^ 0xfe) * 0x100000001b3) 0xcbf29ce484222325

def validateName (name field : String) : Except BackupError Unit :=
  if trim name = "" ∨ '\n' ∈ name.toList ∨ '\r' ∈ name.toList ∨ '\t' ∈ name.toList then
    .error (.invalidName field)
  else .ok ()

/-! ### Hexadecimal -/

/-- A byte as its two digits, the high half first. -/
def hexPair (byte : UInt8) : List Char :=
  [Nat.digitChar (byte.toNat / 16), Nat.digitChar (byte.toNat % 16)]

def encodeHex (bytes : Bytes) : String := String.ofList (bytes.flatMap hexPair)

def decodeNibble (byte : UInt8) : Except BackupError UInt8 :=
  if 48 ≤ byte ∧ byte ≤ 57 then .ok (byte - 48)
  else if 97 ≤ byte ∧ byte ≤ 102 then .ok (byte - 97 + 10)
  else if 65 ≤ byte ∧ byte ≤ 70 then .ok (byte - 65 + 10)
  else .error (.invalidManifest "invalid hex digit")

/-- The loop over the pairs of digits. -/
def decodePairs : Bytes → Except BackupError Bytes
  | high :: low :: rest => do
    let high ← decodeNibble high
    let low ← decodeNibble low
    let bytes ← decodePairs rest
    .ok ((high <<< 4 ||| low) :: bytes)
  | _ => .ok []

section

variable (text : String)

def decodeHex : Except BackupError Bytes :=
  if (utf8 text).length % 2 ≠ 0 then .error (.invalidManifest "odd hex length")
  else decodePairs (utf8 text)

/-- The byte of a digit. -/
def digitByte (digit : ℕ) : UInt8 := UInt8.ofNat (Nat.digitChar digit).toNat

theorem decodeNibble_digitByte {digit : ℕ} (h : digit < 16) :
    decodeNibble (digitByte digit) = .ok (UInt8.ofNat digit) := by
  have hall : ∀ digit : Fin 16, decodeNibble (digitByte digit) = .ok (UInt8.ofNat digit) := by
    decide
  exact hall ⟨digit, h⟩

theorem or_halves (byte : UInt8) :
    UInt8.ofNat (byte.toNat / 16) <<< 4 ||| UInt8.ofNat (byte.toNat % 16) = byte := by
  have hall : ∀ n : Fin 256,
      UInt8.ofNat (n / 16) <<< 4 ||| UInt8.ofNat (n % 16) = UInt8.ofNat n := by decide +kernel
  rw [hall ⟨byte.toNat, byte.toNat_lt⟩]
  exact UInt8.ofNat_toNat

theorem toNat_halves_lt (byte : UInt8) : byte.toNat / 16 < 16 ∧ byte.toNat % 16 < 16 := by
  have hbyte := byte.toNat_lt
  omega

theorem exists_digit_of_mem {bytes : Bytes} {letter : Char} (h : letter ∈ bytes.flatMap hexPair) :
    ∃ digit : Fin 16, Nat.digitChar digit = letter := by
  obtain ⟨byte, -, hpair⟩ := mem_flatMap.mp h
  obtain ⟨hhigh, hlow⟩ := toNat_halves_lt byte
  rcases mem_cons.mp hpair with rfl | hlast
  · exact ⟨⟨_, hhigh⟩, rfl⟩
  · rw [mem_singleton.mp hlast]
    exact ⟨⟨_, hlow⟩, rfl⟩

/-- What is written of bytes, as bytes. -/
theorem utf8_encodeHex (bytes : Bytes) :
    utf8 (encodeHex bytes) =
      bytes.flatMap fun byte ↦ [digitByte (byte.toNat / 16), digitByte (byte.toNat % 16)] := by
  rw [encodeHex, utf8_ofList_of_lt, map_flatMap]
  · rfl
  · intro letter hchar
    obtain ⟨digit, rfl⟩ := exists_digit_of_mem hchar
    clear hchar
    revert digit
    decide

theorem decodeHex_encodeHex (bytes : Bytes) : decodeHex (encodeHex bytes) = .ok bytes := by
  rw [decodeHex, utf8_encodeHex]
  rw [if_neg (by simp [length_flatMap])]
  induction bytes with
  | nil => rfl
  | cons byte _ ih =>
    obtain ⟨hhigh, hlow⟩ := toNat_halves_lt byte
    simp only [flatMap_cons, cons_append, nil_append, decodePairs,
      decodeNibble_digitByte hhigh, decodeNibble_digitByte hlow, ih, ok_bind, or_halves]

/-- A text that can stand as a field of a line: no tab and no line end in it. -/
def Safe : Prop := ∀ letter ∈ text.toList, letter ≠ '\t' ∧ letter ≠ '\n' ∧ letter ≠ '\r'

instance : Decidable (Safe text) := List.decidableBAll _ _

@[simp] theorem encodeHex_safe (bytes : Bytes) : Safe (encodeHex bytes) := by
  intro letter hchar
  rw [encodeHex, String.toList_ofList] at hchar
  obtain ⟨digit, rfl⟩ := exists_digit_of_mem hchar
  clear hchar
  revert digit
  decide

@[simp] theorem decimal_safe (n : ℕ) : Safe (decimal n) := by
  intro letter hchar
  have hdigit := isDigit_of_mem_decimal hchar
  refine ⟨?_, ?_, ?_⟩ <;>
  · rintro rfl
    exact absurd hdigit (by decide)

/-- A line of fields. -/
def line (fields : List String) : String := joinChar '\t' fields

theorem splitChar_line (fields : List String) (hne : fields ≠ [])
    (h : ∀ field ∈ fields, Safe field) :
    splitChar '\t' (line fields) = fields :=
  splitChar_joinChar hne fun field hfield hmem ↦ (h field hfield '\t' hmem).1 rfl

/-- Lines of fields are read back as lines. -/
theorem lines_unlines_line (rows : List (List String))
    (h : ∀ row ∈ rows, ∀ field ∈ row, Safe field) :
    lines (unlines (rows.map line)) = rows.map line := by
  have hline : ∀ text ∈ rows.map line, '\n' ∉ text.toList ∧ '\r' ∉ text.toList := by
    intro text htext
    obtain ⟨row, hrow, rfl⟩ := mem_map.mp htext
    constructor
    · intro hmem
      obtain ⟨field, hfield, hchar⟩ := (mem_joinChar_iff (by decide)).mp hmem
      exact (h row hrow field hfield _ hchar).2.1 rfl
    · intro hmem
      obtain ⟨field, hfield, hchar⟩ := (mem_joinChar_iff (by decide)).mp hmem
      exact (h row hrow field hfield _ hchar).2.2 rfl
  exact lines_unlines (fun text htext ↦ (hline text htext).1) fun text htext ↦ (hline text htext).2

/-! ### Fields -/

def decodeString : Except BackupError String := do
  let bytes ← decodeHex text
  match ofUtf8 bytes with
  | some found => .ok found
  | none => .error (.invalidManifest "hex string is not utf-8")

/-- A number of at most `top`; any text that is none has the same error. -/
def parseNumber (top : ℕ) (reason text : String) : Except BackupError ℕ :=
  match parseWord text with
  | .ok n => if n ≤ top then .ok n else .error (.invalidManifest reason)
  | .error _ => .error (.invalidManifest reason)

def parseU16 : Except BackupError ℕ := parseNumber (2 ^ 16 - 1) "invalid u16" text

def parseU64 : Except BackupError UInt64 :=
  (parseNumber maxWord "invalid u64" text).map UInt64.ofNat

def parseUsize : Except BackupError ℕ := parseNumber maxWord "invalid usize" text

theorem decodeString_encodeHex : decodeString (encodeHex (utf8 text)) = .ok text := by
  rw [decodeString, decodeHex_encodeHex, ok_bind, ofUtf8_utf8]

theorem parseNumber_decimal {top n : ℕ} (htop : top ≤ maxWord) (h : n ≤ top) (reason : String) :
    parseNumber top reason (decimal n) = .ok n := by
  simp only [parseNumber, parseWord_decimal (h.trans htop), if_pos h]

theorem map_ofNat_parseNumber_decimal (n : UInt64) (reason : String) :
    (parseNumber maxWord reason (decimal n.toNat)).map UInt64.ofNat = .ok n := by
  rw [parseNumber_decimal le_rfl (Nat.le_of_lt_succ n.toNat_lt)]
  exact congrArg Except.ok UInt64.ofNat_toNat

/-! ### Manifest -/

def backupManifestFormatVersion : ℕ := 1

structure BackupEntry where
  logicalKey : String
  objectKey : String
  len : ℕ
  checksum : UInt64
deriving DecidableEq

structure BackupManifest where
  formatVersion : ℕ
  backupId : String
  checkpoint : UInt64
  controlPlane : BackupEntry
  values : List BackupEntry
  manifestKey : String
deriving DecidableEq

def BackupEntry.fields (entry : BackupEntry) : List String :=
  [encodeHex (utf8 entry.logicalKey), encodeHex (utf8 entry.objectKey), decimal entry.len,
    decimal entry.checksum.toNat]

/-- The four fields of an entry, read in their order. -/
def BackupEntry.ofFields (logicalKey objectKey len checksum : String) :
    Except BackupError BackupEntry := do
  let logicalKey ← decodeString logicalKey
  let objectKey ← decodeString objectKey
  let len ← parseUsize len
  let checksum ← parseU64 checksum
  .ok { logicalKey, objectKey, len, checksum }

/-- A line behind the header. -/
def decodeValue : Except BackupError BackupEntry :=
  match splitChar '\t' text with
  | [tag, logicalKey, objectKey, len, checksum] =>
    if tag ≠ "value" then .error (.invalidManifest "invalid value entry")
    else BackupEntry.ofFields logicalKey objectKey len checksum
  | _ => .error (.invalidManifest "invalid value entry")

end

namespace BackupManifest

def header (manifest : BackupManifest) : List String :=
  ["hydracache-backup", decimal manifest.formatVersion, encodeHex (utf8 manifest.backupId),
    decimal manifest.checkpoint.toNat] ++ manifest.controlPlane.fields

def encode (manifest : BackupManifest) : Bytes :=
  utf8 (unlines
    ((manifest.header :: manifest.values.map fun entry ↦ "value" :: entry.fields).map line))

/-- Read the text of a manifest. -/
def decodeText (manifestKey text : String) : Except BackupError BackupManifest :=
  match lines text with
  | [] => .error (.invalidManifest "missing header")
  | header :: rest =>
    match splitChar '\t' header with
    | [tag, version, backupId, checkpoint, logicalKey, objectKey, len, checksum] =>
      if tag ≠ "hydracache-backup" then .error (.invalidManifest "invalid header")
      else do
        let formatVersion ← parseU16 version
        if formatVersion ≠ backupManifestFormatVersion then
          .error (.unsupportedManifestFormat formatVersion)
        else do
          let backupId ← decodeString backupId
          let checkpoint ← parseU64 checkpoint
          let controlPlane ← BackupEntry.ofFields logicalKey objectKey len checksum
          let values ← rest.mapM decodeValue
          .ok { formatVersion, backupId, checkpoint, controlPlane, values, manifestKey }
    | _ => .error (.invalidManifest "invalid header")

def decode (manifestKey : String) (bytes : Bytes) : Except BackupError BackupManifest :=
  match ofUtf8 bytes with
  | none => .error (.invalidManifest "manifest is not utf-8")
  | some text => decodeText manifestKey text

end BackupManifest

theorem BackupEntry.fields_safe (entry : BackupEntry) : ∀ field ∈ entry.fields, Safe field := by
  simp [fields]

/-- Assumes: a length that fits a word. An entry is read back from its fields. -/
theorem BackupEntry.ofFields_eq {entry : BackupEntry} (h : entry.len ≤ maxWord) :
    ofFields (encodeHex (utf8 entry.logicalKey)) (encodeHex (utf8 entry.objectKey))
      (decimal entry.len)
      (decimal entry.checksum.toNat) = .ok entry := by
  simp only [ofFields, decodeString_encodeHex, ok_bind, parseUsize, parseNumber_decimal le_rfl h,
    parseU64, map_ofNat_parseNumber_decimal]

theorem decodeValue_line {entry : BackupEntry} (h : entry.len ≤ maxWord) :
    decodeValue (line ("value" :: entry.fields)) = .ok entry := by
  have hsplit : splitChar '\t' (line ("value" :: entry.fields)) = "value" :: entry.fields := by
    refine splitChar_line _ (cons_ne_nil _ _) ?_
    exact forall_mem_cons.mpr ⟨by decide, entry.fields_safe⟩
  rw [decodeValue, hsplit, BackupEntry.fields]
  simp only [ne_eq, not_true_eq_false, if_false, BackupEntry.ofFields_eq h]

theorem mapM_decodeValue {entries : List BackupEntry} (h : ∀ entry ∈ entries, entry.len ≤ maxWord) :
    ((entries.map fun entry ↦ "value" :: entry.fields).map line).mapM decodeValue =
      .ok entries := by
  induction entries with
  | nil => rfl
  | cons entry _ ih =>
    rw [map_cons, map_cons, mapM_cons, decodeValue_line (h entry mem_cons_self), ok_bind,
      ih fun other hother ↦ h other (mem_cons_of_mem _ hother)]
    rfl

/-- Assumes: the supported format version and lengths that fit a word. A manifest is read back. -/
theorem BackupManifest.decode_encode {manifest : BackupManifest}
    (hver : manifest.formatVersion = backupManifestFormatVersion)
    (hctl : manifest.controlPlane.len ≤ maxWord)
    (hvals : ∀ entry ∈ manifest.values, entry.len ≤ maxWord) :
    decode manifest.manifestKey manifest.encode = .ok manifest := by
  have hname : Safe "hydracache-backup" := by decide
  have hheader : ∀ field ∈ manifest.header, Safe field :=
    forall_mem_append.mpr ⟨by simp [hname], manifest.controlPlane.fields_safe⟩
  have hlines := lines_unlines_line
    (manifest.header :: manifest.values.map fun entry ↦ "value" :: entry.fields) ?_
  · have hsplit := splitChar_line manifest.header (cons_ne_nil _ _) hheader
    rw [decode, encode, ofUtf8_utf8]
    dsimp only
    rw [decodeText, hlines, map_cons]
    dsimp only
    rw [hsplit, header, BackupEntry.fields]
    simp only [cons_append, nil_append, ne_eq, not_true_eq_false, if_false, hver, parseU16,
      parseNumber_decimal (show 2 ^ 16 - 1 ≤ maxWord by decide)
        (show backupManifestFormatVersion ≤ 2 ^ 16 - 1 by decide), ok_bind, decodeString_encodeHex,
          parseU64,
      map_ofNat_parseNumber_decimal, BackupEntry.ofFields_eq hctl, mapM_decodeValue hvals]
    cases manifest
    cases hver
    rfl
  · intro row hrow field hfield
    rcases mem_cons.mp hrow with rfl | hrow
    · exact hheader field hfield
    · obtain ⟨entry, -, rfl⟩ := mem_map.mp hrow
      rcases mem_cons.mp hfield with rfl | hfield
      · decide
      · exact entry.fields_safe field hfield

/-! ### Change log -/

/-- A change: a value put under a key, or the key deleted. -/
structure PitrRecord where
  sequence : UInt64
  key : String
  value : Option Bytes
deriving DecidableEq

structure PitrLog where
  records : List PitrRecord
deriving DecidableEq

def PitrRecord.fields (record : PitrRecord) : List String :=
  match record.value with
  | some value =>
    ["put", decimal record.sequence.toNat, encodeHex (utf8 record.key),
      decimal (checksum [value]).toNat, encodeHex value]
  | none => ["delete", decimal record.sequence.toNat, encodeHex (utf8 record.key), "0", ""]

/-- The value of a record from its operation, its checksum and its last field. -/
def decodeChange (op : String) (sequence checksumValue : UInt64) (text : String) :
    Except BackupError (Option Bytes) :=
  if op = "put" then do
    let value ← decodeHex text
    if checksum [value] ≠ checksumValue then
      .error (.corruptObject ("pitr/" ++ decimal sequence.toNat))
    else .ok (some value)
  else if op = "delete" ∧ checksumValue = 0 ∧ text = "" then .ok none
  else .error (.invalidManifest "invalid pitr op")

/-- One line of the log behind a record with the given sequence. -/
def PitrRecord.decode (previous : UInt64) (text : String) : Except BackupError PitrRecord :=
  match splitChar '\t' text with
  | [op, sequence, key, checksumValue, value] => do
    let sequence ← (parseNumber maxWord "invalid pitr sequence" sequence).map UInt64.ofNat
    if sequence ≤ previous then
      .error (.invalidManifest "pitr sequence must be strictly increasing")
    else do
      let bytes ← decodeHex key
      match ofUtf8 bytes with
      | none => .error (.invalidManifest "invalid pitr key")
      | some key => do
        let checksumValue ←
          (parseNumber maxWord "invalid pitr checksum" checksumValue).map UInt64.ofNat
        let value ← decodeChange op sequence checksumValue value
        .ok { sequence, key, value }
  | _ => .error (.invalidManifest "invalid pitr entry")

namespace PitrLog

/-- The loop over the records, with the sequence of the last one. -/
def encodeRecords (previous : UInt64) : List PitrRecord → Except BackupError (List (List String))
  | [] => .ok []
  | record :: records =>
    if record.sequence ≤ previous then
      .error (.invalidManifest "pitr sequence must be strictly increasing")
    else do
      validateName record.key "pitr key"
      let rows ← encodeRecords record.sequence records
      .ok (record.fields :: rows)

def header : List String := ["hydracache-pitr", "1"]

def encode (log : PitrLog) : Except BackupError Bytes := do
  let rows ← encodeRecords 0 log.records
  .ok (utf8 (unlines ((header :: rows).map line)))

def decodeRecords (previous : UInt64) : List String → Except BackupError (List PitrRecord)
  | [] => .ok []
  | text :: texts => do
    let record ← PitrRecord.decode previous text
    let records ← decodeRecords record.sequence texts
    .ok (record :: records)

def decode (bytes : Bytes) : Except BackupError PitrLog :=
  match ofUtf8 bytes with
  | none => .error (.invalidManifest "pitr log is not utf-8")
  | some text =>
    match lines text with
    | [] => .error (.invalidManifest "invalid pitr header")
    | first :: rest =>
      if first ≠ "hydracache-pitr\t1" then .error (.invalidManifest "invalid pitr header")
      else do
        let records ← decodeRecords 0 rest
        .ok { records }

end PitrLog

theorem PitrRecord.fields_safe (record : PitrRecord) : ∀ field ∈ record.fields, Safe field := by
  have hops : Safe "put" ∧ Safe "delete" ∧ Safe "0" ∧ Safe "" := by decide
  unfold fields
  split <;> simp [hops]

theorem PitrRecord.fields_ne_nil (record : PitrRecord) : record.fields ≠ [] := by
  unfold fields
  split <;> exact cons_ne_nil _ _

theorem parseNumber_zero (reason : String) :
    (parseNumber maxWord reason "0").map UInt64.ofNat = .ok 0 := by
  have hzero : decimal (0 : UInt64).toNat = "0" := by decide
  rw [← hzero]
  exact map_ofNat_parseNumber_decimal 0 reason

theorem decodeChange_put (sequence : UInt64) (value : Bytes) :
    decodeChange "put" sequence (checksum [value]) (encodeHex value) = .ok (some value) := by
  rw [decodeChange, if_pos rfl, decodeHex_encodeHex, ok_bind, if_neg (not_not_intro rfl)]

theorem decodeChange_delete (sequence : UInt64) :
    decodeChange "delete" sequence 0 "" = .ok none := by
  rw [decodeChange, if_neg (by decide), if_pos ⟨rfl, rfl, rfl⟩]

/-- Assumes: a sequence above the previous one. A record is read back from its line. -/
theorem PitrRecord.decode_line {record : PitrRecord} {previous : UInt64}
    (h : ¬ record.sequence ≤ previous) : decode previous (line record.fields) = .ok record := by
  have hsplit := splitChar_line _ record.fields_ne_nil record.fields_safe
  rw [decode, hsplit]
  obtain ⟨sequence, key, value⟩ := record
  cases value with
  | some =>
    simp only [fields, map_ofNat_parseNumber_decimal, ok_bind, if_neg h, decodeHex_encodeHex,
      ofUtf8_utf8, decodeChange_put]
  | none =>
    simp only [fields, map_ofNat_parseNumber_decimal, ok_bind, if_neg h, decodeHex_encodeHex,
      ofUtf8_utf8, parseNumber_zero, decodeChange_delete]

/-- The rows of a log are safe, and reading them behind the same sequence gives the records back. -/
theorem PitrLog.decodeRecords_of_encodeRecords {records : List PitrRecord} {previous : UInt64}
    {rows : List (List String)} (h : encodeRecords previous records = .ok rows) :
    (∀ row ∈ rows, ∀ field ∈ row, Safe field) ∧
      decodeRecords previous (rows.map line) = .ok records := by
  induction records generalizing previous rows with
  | nil =>
    cases h
    exact ⟨fun row hrow ↦ absurd hrow not_mem_nil, rfl⟩
  | cons record _ ih =>
    rw [encodeRecords] at h
    split_ifs at h with hseq
    rw [bind_eq_ok_iff] at h
    obtain ⟨-, -, h⟩ := h
    rw [bind_eq_ok_iff] at h
    obtain ⟨later, hlater, h⟩ := h
    cases h
    obtain ⟨hsafe, hread⟩ := ih hlater
    constructor
    · exact forall_mem_cons.mpr ⟨record.fields_safe, hsafe⟩
    · rw [map_cons, decodeRecords, PitrRecord.decode_line hseq, ok_bind, hread, ok_bind]

/-- A log that could be written is read back. -/
theorem PitrLog.decode_of_encode {log : PitrLog} {bytes : Bytes} (h : log.encode = .ok bytes) :
    decode bytes = .ok log := by
  rw [encode, bind_eq_ok_iff] at h
  obtain ⟨rows, hrows, h⟩ := h
  cases h
  obtain ⟨hsafe, hread⟩ := decodeRecords_of_encodeRecords hrows
  have hlines := lines_unlines_line (header :: rows) ?_
  · have hheader : line header = "hydracache-pitr\t1" := by decide
    rw [decode, ofUtf8_utf8]
    dsimp only
    rw [hlines, map_cons, hheader]
    simp only [ne_eq, not_true_eq_false, if_false, hread, ok_bind]
  · refine forall_mem_cons.mpr ⟨?_, hsafe⟩
    unfold header
    decide

end HydraCache.Backup
