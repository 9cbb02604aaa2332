import HydraCache.Backup.Artifact
import HydraCache.Lib.Fallible
import HydraCache.Lib.OrderedMap

/-!
# Restoring a backup to a point in time

A full backup is written to an object store as one object for the control plane, one for each value
and a manifest; the changes after it are shipped as a log. `restoreBackupToPoint` reads all of it
back and replays the log up to a target sequence.

`restoreBackupToPoint_eq` says what a restore gives: the dataset with the records of sequence at
most the target applied in their order (`BackupDataset.atPoint`), in every object store that keeps
to its contract (`ObjectStore.Keeps`) and whatever else is in it, for every dataset, log and target.
Nothing compares the target with the checkpoint of the manifest, so a target below the checkpoint
gets the state of the checkpoint, and `restored_iff` says that a restore is right exactly from the
checkpoint on.

Scope. Listing objects is left out, as no modelled function uses it. A value's length is assumed to
fit a machine word, as that of every vector of the source does.
-/

set_option autoImplicit false

namespace HydraCache.Backup

open Lib List

variable {σ : Type}

/-! ### Object stores -/

/-- The contract of a backend: bytes are stored and loaded under a key. -/
structure ObjectStore (σ : Type) where
  put : String → Bytes → Fallible BackupError σ Unit
  get : σ → String → Except BackupError Bytes

/-- A store that loads what was stored last under a key, and in which a key is nobody else's. -/
structure ObjectStore.Keeps (store : ObjectStore σ) : Prop where
  get_self : ∀ {key bytes s s'}, Returns (store.put key bytes) s () s' →
    store.get s' key = .ok bytes
  get_other : ∀ {key bytes s s'}, Returns (store.put key bytes) s () s' →
    ∀ other, other ≠ key → store.get s' other = store.get s other

/-- The objects of the store for tests and examples. -/
abbrev InMemoryObjectStore := OrderedMap String Bytes

namespace InMemoryObjectStore

def put (key : String) (bytes : Bytes) : Fallible BackupError InMemoryObjectStore Unit :=
  if trim key = "" then liftExcept (.error (BackupError.invalidName "object key"))
  else modify (·.insert key bytes)

def get (objects : InMemoryObjectStore) (key : String) : Except BackupError Bytes :=
  match OrderedMap.get objects key with
  | some bytes => .ok bytes
  | none => .error (.missingObject key)

end InMemoryObjectStore

def inMemoryObjectStore : ObjectStore InMemoryObjectStore where
  put := InMemoryObjectStore.put
  get := InMemoryObjectStore.get

variable {bytes written : Bytes} {base backupId : String} {store : ObjectStore σ} {s s' : σ}
  {records : List PitrRecord} {manifest : BackupManifest} {rows : List (String × Bytes)}
  {key : String} {previous : UInt64}

theorem returns_inMemory_put_iff {objects objects' : InMemoryObjectStore} :
    Returns (inMemoryObjectStore.put key bytes) objects () objects' ↔
      trim key ≠ "" ∧ objects' = OrderedMap.insert objects key bytes := by
  change Returns (InMemoryObjectStore.put key bytes) objects () objects' ↔ _
  unfold InMemoryObjectStore.put
  split_ifs with hblank
  · exact iff_of_false nofun fun h ↦ h.1 hblank
  · rw [returns_modify_iff]
    exact (and_iff_right hblank).symm

theorem inMemoryObjectStore_keeps : inMemoryObjectStore.Keeps := by
  constructor
  · intro key bytes s s' h
    rw [(returns_inMemory_put_iff.mp h).2]
    change InMemoryObjectStore.get _ _ = _
    rw [InMemoryObjectStore.get, OrderedMap.get_insert_self]
  · intro key bytes s s' h other hother
    rw [(returns_inMemory_put_iff.mp h).2]
    change InMemoryObjectStore.get _ _ = InMemoryObjectStore.get _ _
    rw [InMemoryObjectStore.get, OrderedMap.get_insert_of_ne _ _ hother, InMemoryObjectStore.get]

/-! ### Full backups -/

structure BackupDataset where
  controlPlane : Bytes
  values : OrderedMap String Bytes
deriving DecidableEq

def entry (logicalKey objectKey : String) (bytes : Bytes) : BackupEntry where
  logicalKey
  objectKey
  len := bytes.length
  checksum := checksum [bytes]

/-- Where the objects of a backup are. -/
def folder (backupId : String) : String := "backups/" ++ backupId

def controlKey (base : String) : String := base ++ "/control-plane"

def valueKey (base : String) (index : ℕ) : String := base ++ ("/values/" ++ padded 16 index)

def manifestKey (base : String) : String := base ++ "/manifest"

def pitrLogKey (base : String) : String := base ++ "/pitr-log"

/-- The loop over the values, with the index of the next one. -/
def writeValues (store : ObjectStore σ) (base : String) :
    ℕ → List (String × Bytes) → Fallible BackupError σ (List BackupEntry)
  | _, [] => pure []
  | index, row :: rows => do
    liftExcept (validateName row.1 "logical key")
    store.put (valueKey base index) row.2
    let values ← writeValues store base (index + 1) rows
    pure (entry row.1 (valueKey base index) row.2 :: values)

section

variable (store : ObjectStore σ)

def writeFullBackup (backupId : String) (checkpoint : UInt64)
    (dataset : BackupDataset) : Fallible BackupError σ BackupManifest := do
  liftExcept (validateName backupId "backup id")
  let base := folder backupId
  store.put (controlKey base) dataset.controlPlane
  let values ← writeValues store base 0 dataset.values.rows
  let manifest : BackupManifest :=
    { formatVersion := backupManifestFormatVersion
      backupId
      checkpoint
      controlPlane := entry "control-plane" (controlKey base) dataset.controlPlane
      values
      manifestKey := manifestKey base }
  store.put manifest.manifestKey manifest.encode
  pure manifest

def writePitrLog (backupId : String) (log : PitrLog) : Fallible BackupError σ String := do
  liftExcept (validateName backupId "backup id")
  let key := pitrLogKey (folder backupId)
  let bytes ← liftExcept log.encode
  store.put key bytes
  pure key

/-! ### Restoring -/

def readManifest (s : σ) (manifestKey : String) : Except BackupError BackupManifest := do
  let bytes ← store.get s manifestKey
  BackupManifest.decode manifestKey bytes

def readChecked (s : σ) (entry : BackupEntry) : Except BackupError Bytes := do
  let bytes ← store.get s entry.objectKey
  if bytes.length ≠ entry.len ∨ checksum [bytes] ≠ entry.checksum then
    .error (.corruptObject entry.objectKey)
  else .ok bytes

end

/-- The loop over the entries of a manifest. -/
def restoreValues (store : ObjectStore σ) (s : σ) :
    List BackupEntry → OrderedMap String Bytes → Except BackupError (OrderedMap String Bytes)
  | [], values => .ok values
  | entry :: entries, values => do
    let bytes ← readChecked store s entry
    restoreValues store s entries (values.insert entry.logicalKey bytes)

def restoreDatasetFromManifest (store : ObjectStore σ) (s : σ) (manifest : BackupManifest) :
    Except BackupError BackupDataset := do
  let controlPlane ← readChecked store s manifest.controlPlane
  let values ← restoreValues store s manifest.values ∅
  .ok { controlPlane, values }

/-- The dataset after a change. -/
def BackupDataset.applied (dataset : BackupDataset) (record : PitrRecord) : BackupDataset :=
  match record.value with
  | some value => { dataset with values := dataset.values.insert record.key value }
  | none => { dataset with values := dataset.values.remove record.key }

/-- The loop over the log, which stops at the first record behind the target. -/
def replay (targetSequence : UInt64) : List PitrRecord → BackupDataset → BackupDataset
  | [], dataset => dataset
  | record :: records, dataset =>
    if targetSequence < record.sequence then dataset
    else replay targetSequence records (dataset.applied record)

def restoreBackupToPoint (store : ObjectStore σ) (s : σ) (manifestKey : String)
    (pitrLogKey : Option String) (targetSequence : UInt64) : Except BackupError BackupDataset := do
  let manifest ← readManifest store s manifestKey
  let dataset ← restoreDatasetFromManifest store s manifest
  match pitrLogKey with
  | none => .ok dataset
  | some key => do
    let bytes ← store.get s key
    let log ← PitrLog.decode bytes
    .ok (replay targetSequence log.records dataset)

/-- What the dataset is at a point in time: the changes up to it applied one after another. -/
def BackupDataset.atPoint (dataset : BackupDataset) (log : PitrLog) (targetSequence : UInt64) :
    BackupDataset :=
  (log.records.filter fun record ↦ record.sequence ≤ targetSequence).foldl applied dataset

/-! ### Where objects are -/

/-- No value is where the other objects are. -/
theorem ne_valueKey {other : String} (h : other.toList.take 3 ≠ ['/', 'v', 'a']) (base : String)
    (index : ℕ) :
    base ++ other ≠ valueKey base index := by
  rw [valueKey, ne_eq, String.append_right_inj]
  rintro rfl
  rw [String.toList_append] at h
  exact h rfl

theorem valueKey_injective {index other : ℕ} (h : valueKey base index = valueKey base other) :
    index = other := by
  rw [valueKey, valueKey, String.append_right_inj, String.append_right_inj] at h
  exact padded_injective h

/-! ### What a backup leaves in the store -/

/-- The entry describes these bytes, and they are in the store. -/
structure Holds (store : ObjectStore σ) (s : σ) (entry : BackupEntry) (bytes : Bytes) : Prop where
  len : entry.len = bytes.length
  checksum : entry.checksum = checksum [bytes]
  get : store.get s entry.objectKey = .ok bytes

/-- An object stays as it is while another key is written. -/
theorem Holds.put (hstore : store.Keeps) {entry : BackupEntry} (h : Holds store s entry bytes)
    (hput : Returns (store.put key written) s () s') (hne : entry.objectKey ≠ key) :
    Holds store s' entry bytes where
  __ := h
  get := (hstore.get_other hput _ hne).trans h.get

theorem holds_entry {logicalKey objectKey : String} (h : store.get s objectKey = .ok bytes) :
    Holds store s (entry logicalKey objectKey bytes) bytes :=
  ⟨rfl, rfl, h⟩

theorem Holds.readChecked {entry : BackupEntry}
    (h : Holds store s entry bytes) : readChecked store s entry = .ok bytes := by
  rw [Backup.readChecked, h.get, ok_bind, if_neg]
  rw [h.len, h.checksum]
  simp

/-- The entry is that of the row, and its object holds the value of the row. -/
structure Written (store : ObjectStore σ) (s : σ) (base : String) (row : String × Bytes)
    (entry : BackupEntry) : Prop where
  logicalKey : entry.logicalKey = row.1
  place : ∃ index, entry.objectKey = valueKey base index
  holds : Holds store s entry row.2

theorem Written.put (hstore : store.Keeps)
    {row : String × Bytes} {entry : BackupEntry} (h : Written store s base row entry)
    (hput : Returns (store.put key written) s () s') (hkey : ∀ index, key ≠ valueKey base index) :
    Written store s' base row entry where
  __ := h
  holds := by
    obtain ⟨index, hplace⟩ := h.place
    exact h.holds.put hstore hput fun heq ↦ hkey index (heq.symm.trans hplace)

/-- The loop over the values writes an object for each of them and touches no other key. -/
theorem writeValues_spec (hstore : store.Keeps) {index : ℕ}
    {entries : List BackupEntry} (h : Returns (writeValues store base index rows) s entries s') :
    (∀ key, (∀ n, index ≤ n → key ≠ valueKey base n) → store.get s' key = store.get s key) ∧
      List.Forall₂ (Written store s' base) rows entries := by
  induction rows generalizing index s entries with
  | nil =>
    obtain ⟨rfl, rfl⟩ := returns_pure_iff.mp h
    exact ⟨fun _ _ ↦ rfl, .nil⟩
  | cons row rows ih =>
    rw [writeValues, returns_liftExcept_bind_iff] at h
    obtain ⟨-, -, h⟩ := h
    rw [returns_bind_iff] at h
    obtain ⟨_, middle, hput, h⟩ := h
    rw [returns_bind_iff] at h
    obtain ⟨later, last, hlater, h⟩ := h
    obtain ⟨rfl, rfl⟩ := returns_pure_iff.mp h
    obtain ⟨hframe, hwrit⟩ := ih hlater
    constructor
    · intro key hkey
      rw [hframe key fun n hn ↦ hkey n (Nat.le_of_succ_le hn)]
      exact hstore.get_other hput key (hkey index (Nat.le_refl _))
    · refine .cons ⟨rfl, ⟨index, rfl⟩, holds_entry ?_⟩ hwrit
      -- the objects behind it have other keys
      rw [hframe]
      · exact hstore.get_self hput
      · intro n hn heq
        exact absurd (valueKey_injective heq) (Nat.ne_of_lt hn)

/-- A backup as it lies in the store. -/
structure Backed (store : ObjectStore σ) (s : σ) (base : String) (dataset : BackupDataset)
    (manifest : BackupManifest) : Prop where
  formatVersion : manifest.formatVersion = backupManifestFormatVersion
  manifestKey : manifest.manifestKey = manifestKey base
  controlKey : manifest.controlPlane.objectKey = controlKey base
  control : Holds store s manifest.controlPlane dataset.controlPlane
  values : List.Forall₂ (Written store s base) dataset.values.rows manifest.values
  stored : store.get s manifest.manifestKey = .ok manifest.encode

theorem backed_of_returns (hstore : store.Keeps) {checkpoint : UInt64} {dataset : BackupDataset}
    (h : Returns (writeFullBackup store backupId checkpoint dataset) s manifest s') :
    Backed store s' (folder backupId) dataset manifest := by
  rw [writeFullBackup, returns_liftExcept_bind_iff] at h
  obtain ⟨-, -, h⟩ := h
  rw [returns_bind_iff] at h
  obtain ⟨_, afterControl, hctl, h⟩ := h
  rw [returns_bind_iff] at h
  obtain ⟨entries, afterValues, hvals, h⟩ := h
  rw [returns_bind_iff] at h
  obtain ⟨_, afterManifest, hman, h⟩ := h
  obtain ⟨rfl, rfl⟩ := returns_pure_iff.mp h
  obtain ⟨hframe, hwrit⟩ := writeValues_spec hstore hvals
  refine ⟨rfl, rfl, rfl, ?_, ?_, hstore.get_self hman⟩
  · refine (holds_entry ?_).put hstore hman ((String.append_right_inj _).not.mpr (by decide))
    refine (hframe _ fun n _ ↦ ?_).trans (hstore.get_self hctl)
    exact ne_valueKey (by decide) _ n
  · exact hwrit.imp fun _ _ hrow ↦ hrow.put hstore hman (ne_valueKey (by decide) _)

/-- The log of a backup lies beside its objects. -/
theorem Backed.put (hstore : store.Keeps) {dataset : BackupDataset}
    (h : Backed store s base dataset manifest)
    (hput : Returns (store.put (pitrLogKey base) written) s () s') :
    Backed store s' base dataset manifest where
  __ := h
  control := by
    refine h.control.put hstore hput ?_
    rw [h.controlKey]
    exact (String.append_right_inj _).not.mpr (by decide)
  values := h.values.imp fun _ _ hrow ↦ hrow.put hstore hput (ne_valueKey (by decide) _)
  stored := by
    refine (hstore.get_other hput _ ?_).trans h.stored
    rw [h.manifestKey]
    exact (String.append_right_inj _).not.mpr (by decide)

section

variable {store : ObjectStore σ} {s : σ} {base : String} {entries : List BackupEntry}

theorem len_le_of_written (h : List.Forall₂ (Written store s base) rows entries)
    (hrows : ∀ row ∈ rows, row.2.length ≤ maxWord) : ∀ entry ∈ entries, entry.len ≤ maxWord := by
  induction h with
  | nil => exact fun entry hentry ↦ absurd hentry not_mem_nil
  | cons hrow _ ih =>
    obtain ⟨hfirst, hrest⟩ := forall_mem_cons.mp hrows
    exact forall_mem_cons.mpr ⟨hrow.holds.len ▸ hfirst, ih hrest⟩

/-- Assumes: the lengths of the values fit a word. The manifest of a backup is read back. -/
theorem Backed.readManifest {dataset : BackupDataset}
    (h : Backed store s base dataset manifest) (hctl : dataset.controlPlane.length ≤ maxWord)
    (hvals : ∀ row ∈ dataset.values.rows, row.2.length ≤ maxWord) :
    readManifest store s manifest.manifestKey = .ok manifest := by
  rw [Backup.readManifest, h.stored, ok_bind]
  refine BackupManifest.decode_encode h.formatVersion ?_ (len_le_of_written h.values hvals)
  rwa [h.control.len]

/-- Assumes: the entries of the rows, and their objects in the store. Reading them inserts the
rows. -/
theorem restoreValues_eq (h : List.Forall₂ (Written store s base) rows entries)
    (values : OrderedMap String Bytes) :
    restoreValues store s entries values = .ok (values.insertAll rows) := by
  induction h generalizing values with
  | nil => rfl
  | cons hrow _ ih =>
    rw [restoreValues, hrow.holds.readChecked, ok_bind, hrow.logicalKey, ih]
    rfl

theorem Backed.restoreDatasetFromManifest
    {dataset : BackupDataset} (h : Backed store s base dataset manifest) :
    restoreDatasetFromManifest store s manifest = .ok dataset := by
  rw [Backup.restoreDatasetFromManifest, h.control.readChecked, ok_bind, restoreValues_eq h.values,
    ok_bind]
  have hall : (∅ : OrderedMap String Bytes).insertAll dataset.values.rows = dataset.values :=
    dataset.values.ofList_rows
  rw [hall]

end

/-- Assumes: increasing sequences. Stopping at the first record behind the target leaves out the
same records as leaving out every record behind it. -/
theorem replay_eq_foldl {targetSequence : UInt64}
    (h : records.Pairwise fun record later ↦ record.sequence < later.sequence)
    (dataset : BackupDataset) :
    replay targetSequence records dataset =
      (records.filter fun record ↦ record.sequence ≤ targetSequence).foldl .applied dataset := by
  induction records generalizing dataset with
  | nil => rfl
  | cons record records ih =>
    rw [replay]
    split_ifs with hbeh
    · have hall : ∀ other ∈ record :: records, ¬ other.sequence ≤ targetSequence := by
        refine forall_mem_cons.mpr ⟨UInt64.not_le.mpr hbeh, fun other hother ↦ ?_⟩
        exact UInt64.not_le.mpr (UInt64.lt_trans hbeh ((pairwise_cons.mp h).1 other hother))
      rw [filter_eq_nil_iff.mpr fun other hother ↦ by simpa using hall other hother]
      rfl
    · have hkept : decide (record.sequence ≤ targetSequence) = true :=
        decide_eq_true (UInt64.not_lt.mp hbeh)
      rw [filter_cons, if_pos hkept, foldl_cons]
      exact ih (pairwise_cons.mp h).2 _

/-- The sequences of a log that could be written increase. -/
theorem pairwise_of_encodeRecords
    {rows : List (List String)} (h : PitrLog.encodeRecords previous records = .ok rows) :
    (∀ record ∈ records, previous < record.sequence) ∧
      records.Pairwise fun record later ↦ record.sequence < later.sequence := by
  induction records generalizing previous rows with
  | nil => exact ⟨fun record hrec ↦ absurd hrec not_mem_nil, .nil⟩
  | cons record records ih =>
    rw [PitrLog.encodeRecords] at h
    split_ifs at h with hseq
    rw [bind_eq_ok_iff] at h
    obtain ⟨-, -, h⟩ := h
    rw [bind_eq_ok_iff] at h
    obtain ⟨later, hlater, -⟩ := h
    obtain ⟨habove, hsort⟩ := ih hlater
    have hfirst : previous < record.sequence := UInt64.not_le.mp hseq
    refine ⟨forall_mem_cons.mpr ⟨hfirst, fun other hother ↦ ?_⟩, pairwise_cons.mpr ⟨habove, hsort⟩⟩
    exact UInt64.lt_trans hfirst (habove other hother)

section Restore

variable {store : ObjectStore σ} {checkpoint targetSequence : UInt64}
  {dataset : BackupDataset} {log : PitrLog} {s s₁ s₂ : σ}
  (hstore : store.Keeps) (hcontrol : dataset.controlPlane.length ≤ maxWord)
  (hvalues : ∀ row ∈ dataset.values.rows, row.2.length ≤ maxWord)
  (hbackup : Returns (writeFullBackup store backupId checkpoint dataset) s manifest s₁)
  (hlog : Returns (writePitrLog store backupId log) s₁ key s₂)
include hstore hcontrol hvalues hbackup hlog

/-- Assumes: a backup and its log were written to a store that keeps to its contract, and the
lengths of the values fit a word. Restoring to any target gives the dataset with the changes up to
the target. -/
theorem restoreBackupToPoint_eq (targetSequence : UInt64) :
    restoreBackupToPoint store s₂ manifest.manifestKey (some key) targetSequence =
      .ok (dataset.atPoint log targetSequence) := by
  rw [writePitrLog, returns_liftExcept_bind_iff] at hlog
  obtain ⟨-, -, hlog⟩ := hlog
  rw [returns_liftExcept_bind_iff] at hlog
  obtain ⟨bytes, hbytes, hlog⟩ := hlog
  rw [returns_bind_iff] at hlog
  obtain ⟨_, last, hput, hlog⟩ := hlog
  obtain ⟨rfl, rfl⟩ := returns_pure_iff.mp hlog
  have hbacked := (backed_of_returns hstore hbackup).put hstore hput
  obtain ⟨rows, hrows, -⟩ := bind_eq_ok_iff.mp hbytes
  have hsort := (pairwise_of_encodeRecords hrows).2
  rw [restoreBackupToPoint, hbacked.readManifest hcontrol hvalues, ok_bind,
    hbacked.restoreDatasetFromManifest, ok_bind]
  dsimp only
  rw [hstore.get_self hput, ok_bind, PitrLog.decode_of_encode hbytes, ok_bind,
    replay_eq_foldl hsort]
  rfl

/-- Assumes: a backup and its log were written to a store that keeps to its contract, and the
lengths of the values fit a word. A restore gives the dataset with the changes up to the target when
the target is at least the checkpoint and is refused otherwise: exactly if the target is at least
the checkpoint. -/
theorem restored_iff :
    ((checkpoint ≤ targetSequence →
        restoreBackupToPoint store s₂ manifest.manifestKey (some key) targetSequence =
          .ok (dataset.atPoint log targetSequence)) ∧
      (targetSequence < checkpoint →
        ∃ error, restoreBackupToPoint store s₂ manifest.manifestKey (some key) targetSequence =
          .error error)) ↔ checkpoint ≤ targetSequence := by
  rw [restoreBackupToPoint_eq hstore hcontrol hvalues hbackup hlog]
  constructor
  · rintro ⟨-, href⟩
    by_contra hbelow
    obtain ⟨error, herror⟩ := href (UInt64.not_le.mp hbelow)
    cases herror
  · intro hfrom
    exact ⟨fun _ ↦ rfl, fun hbelow ↦ absurd hfrom (UInt64.not_le.mpr hbelow)⟩

end Restore

/-! ### Writing to memory -/

/-- No object of a backup has a blank key. -/
theorem returns_put (backupId rest : String) (bytes : Bytes) (objects : InMemoryObjectStore) :
    Returns (inMemoryObjectStore.put (folder backupId ++ rest) bytes) objects ()
      (OrderedMap.insert objects (folder backupId ++ rest) bytes) := by
  refine returns_inMemory_put_iff.mpr ⟨fun h ↦ ?_, rfl⟩
  have hblank := congrArg String.toList h
  rw [trim, String.toList_ofList] at hblank
  have hletter : isWhitespace 'b' = true :=
    rdropWhile_eq_nil_iff.mp hblank 'b' (by simp [folder, String.toList_append, isWhitespace])
  exact absurd hletter (by decide)

theorem exists_encodeRecords
    (hnames : ∀ record ∈ records, validateName record.key "pitr key" = .ok ())
    (habove : ∀ record ∈ records, previous < record.sequence)
    (hsort : records.Pairwise fun record later ↦ record.sequence < later.sequence) :
    ∃ rows, PitrLog.encodeRecords previous records = .ok rows := by
  induction records generalizing previous with
  | nil => exact ⟨[], rfl⟩
  | cons record records ih =>
    obtain ⟨hlater, hsort⟩ := pairwise_cons.mp hsort
    obtain ⟨hname, hnames⟩ := forall_mem_cons.mp hnames
    obtain ⟨rows, hrows⟩ := ih hnames hlater hsort
    refine ⟨record.fields :: rows, ?_⟩
    rw [PitrLog.encodeRecords, if_neg (UInt64.not_le.mpr (habove record mem_cons_self)), hname,
      ok_bind, hrows, ok_bind]

theorem exists_writeValues (h : ∀ row ∈ rows, validateName row.1 "logical key" = .ok ())
    (backupId : String) (index : ℕ) (objects : InMemoryObjectStore) : ∃ entries objects',
      Returns (writeValues inMemoryObjectStore (folder backupId) index rows) objects entries
        objects' := by
  induction rows generalizing index objects with
  | nil => exact ⟨[], objects, rfl⟩
  | cons row rows ih =>
    obtain ⟨hname, h⟩ := forall_mem_cons.mp h
    obtain ⟨entries, objects', hrest⟩ := ih h (index + 1)
      (OrderedMap.insert objects (valueKey (folder backupId) index) row.2)
    exact ⟨_, objects', returns_liftExcept_bind_iff.mpr ⟨(), hname, returns_bind_iff.mpr
      ⟨(), _, returns_put .., returns_bind_iff.mpr ⟨entries, objects', hrest, rfl⟩⟩⟩⟩

/-- Assumes: names that are valid, and a log whose sequences increase. A backup and its log can be
written to memory. -/
theorem writes_return {backupId : String} {dataset : BackupDataset} {log : PitrLog}
    (hid : validateName backupId "backup id" = .ok ())
    (hvalues : ∀ row ∈ dataset.values.rows, validateName row.1 "logical key" = .ok ())
    (hkeys : ∀ record ∈ log.records, validateName record.key "pitr key" = .ok ())
    (hfirst : ∀ record ∈ log.records, 0 < record.sequence)
    (hsort : log.records.Pairwise fun record later ↦ record.sequence < later.sequence)
    (checkpoint : UInt64) (objects : InMemoryObjectStore) :
    ∃ manifest objects₁ key objects₂,
      Returns (writeFullBackup inMemoryObjectStore backupId checkpoint dataset) objects manifest
        objects₁ ∧
        Returns (writePitrLog inMemoryObjectStore backupId log) objects₁ key objects₂ := by
  obtain ⟨rows, hrows⟩ := exists_encodeRecords hkeys hfirst hsort
  obtain ⟨values, _, hwritten⟩ := exists_writeValues hvalues backupId 0
    (OrderedMap.insert objects (controlKey (folder backupId)) dataset.controlPlane)
  exact ⟨_, _, _, _,
    returns_liftExcept_bind_iff.mpr ⟨(), hid, returns_bind_iff.mpr ⟨(), _, returns_put ..,
      returns_bind_iff.mpr
        ⟨values, _, hwritten, returns_bind_iff.mpr ⟨(), _, returns_put .., rfl⟩⟩⟩⟩,
    returns_liftExcept_bind_iff.mpr ⟨(), hid, returns_liftExcept_bind_iff.mpr
      ⟨_, bind_eq_ok_iff.mpr ⟨rows, hrows, rfl⟩,
        returns_bind_iff.mpr ⟨(), _, returns_put .., rfl⟩⟩⟩⟩

/-! ### A backup at checkpoint ten -/

def users : BackupDataset where
  controlPlane := [1]
  values := OrderedMap.ofList [("user:1", [65, 100, 97])]

def change : PitrLog := ⟨[⟨11, "user:1", none⟩]⟩

theorem writes_return_users :
    ∃ manifest objects₁ key objects₂,
      Returns (writeFullBackup inMemoryObjectStore "a" 10 users) ∅ manifest objects₁ ∧
        Returns (writePitrLog inMemoryObjectStore "a" change) objects₁ key objects₂ :=
  writes_return (by decide +kernel) (by decide +kernel) (by decide +kernel) (by decide)
    (by decide) 10 ∅

/-- From sequence eleven on the user is gone. -/
theorem restored_iff_users :
    ∃ manifest objects₁ key objects₂,
      Returns (writeFullBackup inMemoryObjectStore "a" 10 users) ∅ manifest objects₁ ∧
        Returns (writePitrLog inMemoryObjectStore "a" change) objects₁ key objects₂ ∧
        restoreBackupToPoint inMemoryObjectStore objects₂ manifest.manifestKey (some key) 11 =
          .ok { users with values := ∅ } := by
  obtain ⟨manifest, objects₁, key, objects₂, hback, hlog⟩ := writes_return_users
  refine ⟨manifest, objects₁, key, objects₂, hback, hlog, ?_⟩
  exact ((restored_iff inMemoryObjectStore_keeps (by decide) (by decide) hback hlog).mpr
    (by decide)).1 (by decide)

/-- A restore to sequence five, before the checkpoint ten, is not refused: it gives the state of the
checkpoint. -/
theorem restore_below_checkpoint :
    ∃ manifest objects₁ key objects₂,
      Returns (writeFullBackup inMemoryObjectStore "a" 10 users) ∅ manifest objects₁ ∧
        Returns (writePitrLog inMemoryObjectStore "a" change) objects₁ key objects₂ ∧
        restoreBackupToPoint inMemoryObjectStore objects₂ manifest.manifestKey (some key) 5 =
          .ok users := by
  obtain ⟨manifest, objects₁, key, objects₂, hback, hlog⟩ := writes_return_users
  refine ⟨manifest, objects₁, key, objects₂, hback, hlog, ?_⟩
  exact restoreBackupToPoint_eq inMemoryObjectStore_keeps (by decide) (by decide) hback hlog 5

end HydraCache.Backup
