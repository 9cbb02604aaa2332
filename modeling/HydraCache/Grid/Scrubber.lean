import HydraCache.Grid.DurableCodec
import HydraCache.Lib.OrderedMap

/-!
# Repairing replicated values from peers

The scrubber walks a map of sealed records in key order, checks at most so many of them in one run,
and replaces a corrupt record by the first valid copy that a peer holds.

A run keeps no cursor, so every run looks at the same first keys. Repeated runs leave no corrupt
record that a peer could repair exactly when all such records are among these keys (`repaired_iff`);
one behind them stays corrupt for good (`corrupt_record_stays`).

Scope. What one run does to a record is `scrubbed`, and a run that looks at a record again finds
nothing to do (`scrubbed_scrubbed`), so that a number of runs does what the first does
(`get_afterRuns`).
-/

set_option autoImplicit false

namespace HydraCache.Grid

open Lib OrderedMap Function

/-! ### Runs -/

abbrev SealedRecords := OrderedMap Key ChecksummedReplicatedValueRecord

structure ScrubError where
  key : Key
  kind : ScrubErrorKind
deriving DecidableEq

structure ScrubReport where
  checked : ℕ := 0
  corrupt : ℕ := 0
  repaired : ℕ := 0
  unrepairable : ℕ := 0
  errors : List ScrubError := []
deriving DecidableEq

/-- The first copy of the peers under the key that verifies. -/
def validCopy (peers : List SealedRecords) (key : Key) : Option ChecksummedReplicatedValueRecord :=
  peers.findSome? fun peer ↦ (peer.get key).filter (·.verify.isOk)

/-- What the loop does at a key. -/
def scrubKey (peers : List SealedRecords) (state : ScrubReport × SealedRecords) (key : Key) :
    ScrubReport × SealedRecords :=
  let report := { state.1 with checked := saturatingSucc state.1.checked }
  match state.2.get key with
  | none => (report, state.2)
  | some record =>
    match record.verify with
    | .ok () => (report, state.2)
    | .error kind =>
      let report := { report with corrupt := saturatingSucc report.corrupt }
      match validCopy peers key with
      | some repair =>
        ({ report with repaired := saturatingSucc report.repaired }, state.2.insert key repair)
      | none =>
        ({ report with
          unrepairable := saturatingSucc report.unrepairable
          errors := report.errors ++ [⟨key, kind⟩] }, state.2)

structure Scrubber where
  maxRecordsPerRun : ℕ

def Scrubber.new (maxRecordsPerRun : ℕ) : Scrubber := ⟨max maxRecordsPerRun 1⟩

/-- The keys that a run looks at. -/
def Scrubber.keys (scrubber : Scrubber) (primary : SealedRecords) : List Key :=
  (primary.rows.map Prod.fst).take scrubber.maxRecordsPerRun

def Scrubber.scrubReplicatedValues (scrubber : Scrubber) (peers : List SealedRecords)
    (primary : SealedRecords) : ScrubReport × SealedRecords :=
  (scrubber.keys primary).foldl (scrubKey peers) ({}, primary)

/-! ### What a run repairs -/

section

variable {peers : List SealedRecords} {primary : SealedRecords} {key other : Key}
  {record : ChecksummedReplicatedValueRecord} {scrubber : Scrubber}

/-- The record at the key is corrupt, and a peer holds a valid copy. -/
def Repairable (peers : List SealedRecords) (primary : SealedRecords) (key : Key) : Prop :=
  ∃ record, primary.get key = some record ∧ record.verify ≠ .ok () ∧
    ∃ peer ∈ peers, ∃ copy, peer.get key = some copy ∧ copy.verify = .ok ()

/-- The record after a run that looks at the key. -/
def scrubbed (peers : List SealedRecords) (key : Key) (record : ChecksummedReplicatedValueRecord) :
    ChecksummedReplicatedValueRecord :=
  if record.verify.isOk then record else (validCopy peers key).getD record

theorem isOk_iff {x : Except ScrubErrorKind Unit} : x.isOk = true ↔ x = .ok () := by
  cases x <;> simp [Except.isOk, Except.toBool]

theorem verify_validCopy (h : validCopy peers key = some record) : record.verify = .ok () := by
  obtain ⟨peer, -, hcopy⟩ := List.exists_of_findSome?_eq_some h
  exact isOk_iff.mp (Option.filter_eq_some_iff.mp hcopy).2

theorem validCopy_eq_none_iff : validCopy peers key = none ↔
    ¬ ∃ peer ∈ peers, ∃ copy, peer.get key = some copy ∧ copy.verify = .ok () := by
  simp [validCopy, List.findSome?_eq_none_iff, Option.filter_eq_none_iff, ← isOk_iff]

/-- A run repairs a record as far as it can be repaired. -/
theorem verify_scrubbed (h : (scrubbed peers key record).verify ≠ .ok ()) :
    validCopy peers key = none := by
  unfold scrubbed at h
  split_ifs at h with hok
  · exact absurd (isOk_iff.mp hok) h
  · cases hcopy : validCopy peers key with
    | none => rfl
    | some =>
      rw [hcopy] at h
      exact absurd (verify_validCopy hcopy) h

theorem scrubbed_scrubbed :
    scrubbed peers key (scrubbed peers key record) = scrubbed peers key record := by
  by_cases h : (scrubbed peers key record).verify = .ok ()
  · exact if_pos (isOk_iff.mpr h)
  · have hcopy := verify_scrubbed h
    simp [scrubbed, hcopy]

theorem get_scrubKey (state : ScrubReport × SealedRecords) :
    (scrubKey peers state key).2.get other =
      if other = key then (state.2.get other).map (scrubbed peers other)
        else state.2.get other := by
  unfold scrubKey
  split_ifs with h
  · subst h
    cases hget : state.2.get other with
    | none => exact hget
    | some record =>
      cases hverify : record.verify with
      | ok => simp [hget, hverify, scrubbed, Except.isOk, Except.toBool]
      | error =>
        cases hcopy : validCopy peers other <;>
          simp [hget, hverify, hcopy, scrubbed, Except.isOk, Except.toBool, get_insert_self]
  · repeat' split
    all_goals first | rfl | exact get_insert_of_ne _ _ h

/-- What the loop over the keys leaves. -/
theorem get_foldl_scrubKey (keys : List Key) (state : ScrubReport × SealedRecords) (key : Key) :
    (keys.foldl (scrubKey peers) state).2.get key =
      if key ∈ keys then (state.2.get key).map (scrubbed peers key) else state.2.get key := by
  induction keys generalizing state with
  | nil => rfl
  | cons first _ ih =>
    rw [List.foldl_cons, ih, get_scrubKey]
    by_cases hfirst : key = first
    · subst hfirst
      simp [comp_def, scrubbed_scrubbed]
    · simp [hfirst]

/-- No run changes the keys. -/
theorem keys_scrub (state : ScrubReport) (keys : List Key) :
    scrubber.keys (keys.foldl (scrubKey peers) (state, primary)).2 = scrubber.keys primary := by
  have hmap : ((keys.foldl (scrubKey peers) (state, primary)).2.mapValues fun _ ↦ ()) =
      primary.mapValues fun _ ↦ () := by
    refine ext_get fun key ↦ ?_
    rw [get_mapValues, get_mapValues, get_foldl_scrubKey]
    split_ifs <;> simp [comp_def]
  have hrows := congrArg (fun records ↦ records.rows.map Prod.fst) hmap
  simp only [mapValues, List.map_map, comp_def] at hrows
  unfold Scrubber.keys
  rw [hrows]

/-- The primary after a number of runs. -/
def Scrubber.afterRuns (scrubber : Scrubber) (peers : List SealedRecords) (primary : SealedRecords)
    (runs : ℕ) : SealedRecords :=
  (fun primary ↦ (scrubber.scrubReplicatedValues peers primary).2)^[runs] primary

/-- Every run after the first finds what the first left. -/
theorem get_afterRuns (runs : ℕ) (key : Key) :
    (scrubber.afterRuns peers primary (runs + 1)).get key =
        (if key ∈ scrubber.keys primary then (primary.get key).map (scrubbed peers key)
          else primary.get key) ∧
      scrubber.keys (scrubber.afterRuns peers primary (runs + 1)) = scrubber.keys primary := by
  induction runs with
  | zero => exact ⟨get_foldl_scrubKey _ _ key, keys_scrub _ _⟩
  | succ _ ih =>
    unfold Scrubber.afterRuns at ih ⊢
    rw [iterate_succ_apply', Scrubber.scrubReplicatedValues, keys_scrub, ih.2,
      get_foldl_scrubKey, ih.1]
    refine ⟨?_, rfl⟩
    split_ifs <;> simp [comp_def, scrubbed_scrubbed]

/-- Runs leave no corrupt record that a peer could repair exactly when every such record is among
the first keys, which are all that any run looks at. -/
theorem repaired_iff (maxRecordsPerRun : ℕ) (peers : List SealedRecords) (primary : SealedRecords) :
    (∃ enough, ∀ runs ≥ enough, ∀ key,
        ¬ Repairable peers ((Scrubber.new maxRecordsPerRun).afterRuns peers primary runs) key) ↔
      ∀ key, Repairable peers primary key →
        key ∈ (primary.rows.map Prod.fst).take (max maxRecordsPerRun 1) := by
  constructor
  · rintro ⟨enough, hclean⟩ key ⟨record, hget, hcorr⟩
    by_contra hkey
    refine hclean (enough + 1) (Nat.le_succ enough) key ⟨record, ?_, hcorr⟩
    rw [(get_afterRuns enough key).1, ← hget]
    exact if_neg hkey
  · intro hfirst
    refine ⟨1, fun runs hruns key ↦ ?_⟩
    obtain ⟨runs, rfl⟩ := Nat.exists_eq_succ_of_ne_zero (Nat.one_le_iff_ne_zero.mp hruns)
    rintro ⟨left, hleft, hcorr, hcopy⟩
    rw [(get_afterRuns runs key).1] at hleft
    split_ifs at hleft with hkey
    · obtain ⟨record, -, rfl⟩ := Option.map_eq_some_iff.mp hleft
      exact validCopy_eq_none_iff.mp (verify_scrubbed hcorr) hcopy
    · exact hkey (hfirst key ⟨left, hleft, hcorr, hcopy⟩)

/-- Runs of one record: a valid record in front, and a corrupt one behind it that a peer could
repair. -/
theorem corrupt_record_stays : let valid := ChecksummedReplicatedValueRecord.seal (.value 0 1 1 [7])
    let peers := [(∅ : SealedRecords).insert "b" valid]
    let primary := ((∅ : SealedRecords).insert "a" valid).insert "b" { valid with checksum := 0 }
    ∀ runs, Repairable peers ((Scrubber.new 1).afterRuns peers primary runs) "b" := by
  intro valid peers primary runs
  refine ⟨{ valid with checksum := 0 }, ?_, by decide +kernel, _, List.mem_singleton_self _, valid,
    get_insert_self _ _ _, by decide +kernel⟩
  cases runs with
  | zero => exact get_insert_self _ _ _
  | succ runs =>
    have hkey : "b" ∉ (Scrubber.new 1).keys primary := by decide +kernel
    rw [(get_afterRuns runs "b").1, if_neg hkey]
    exact get_insert_self _ _ _

end

end HydraCache.Grid
