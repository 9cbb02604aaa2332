import HydraCache.Grid.DurableStore

/-!
# Scrubbing the durable store in cycles

A cycle reads the next raw records behind the cursor, one more than it checks, decodes each and
reports the keys it checked and the records that do not decode. If there was one more, the cursor
moves to the last key checked; otherwise the pass is finished.

Over a store that does not change, a pass checks every record once, in the order of the keys, and
reports those that do not decode, as long as the vector for a batch can be made (`scrubPass_eq`).
The limit of a batch is one more than that of a cycle. For the largest word it wraps to zero, and
the pass ends after one record (`checks_iff`, `pass_ends_after_one`).

Scope. Arithmetic wraps, as in a release build. A vector that is within the bound of its capacity
can be made: memory that runs out is outside the model. Metrics and times are left out.
-/

set_option autoImplicit false

namespace HydraCache.Grid

open Lib OrderedMap List

/-- The most raw records, of 48 bytes each, that a vector can be made for. -/
def maxRawRecords : ℕ := (2 ^ 63 - 1) / 48

/-- The records at the keys above `after`, from the stored rows at and above its own, behind those
already found. -/
def rawRecordsAfter (after : Key) (limit : ℕ) :
    List (Bytes × Bytes) → List (Key × Bytes) → Except ValueStoreError (List (Key × Bytes))
  | [], records => .ok records
  | (stored, bytes) :: rows, records =>
    if isRecordKey stored then do
      let key ← storedKeyToCacheKey stored
      if utf8 key ≤ utf8 after then rawRecordsAfter after limit rows records
      else if (records ++ [(key, bytes)]).length = limit then .ok (records ++ [(key, bytes)])
      else rawRecordsAfter after limit rows (records ++ [(key, bytes)])
    else .ok records

/-- A batch of records; `none` where the vector for it cannot be made, which is a panic. -/
def DurableValueStore.rawRecordBatchAfter (store : DurableValueStore) (after : Option Key)
    (limit : ℕ) :
    Option (Except ValueStoreError (List (Key × Bytes))) :=
  if maxRawRecords < max limit 1 then none
  else some <| match after with
    | some after =>
      rawRecordsAfter after (max limit 1) (store.db.scan fun stored ↦ recordKey after ≤ stored) []
    | none => ((store.db.scan isRecordKey).take (max limit 1)).mapM fun row ↦ do
      let key ← storedKeyToCacheKey row.1
      .ok (key, row.2)

structure DurableScrubCorruption where
  key : Key
  error : String
deriving DecidableEq

structure DurableScrubReport where
  checkedKeys : List Key
  recordsChecked : ℕ
  corruptionCount : ℕ
  corruptions : List DurableScrubCorruption
  cursor : Option Key
  finishedPass : Bool
deriving DecidableEq

structure DurableScrubber where
  recordsPerCycle : ℕ
  cursor : Option Key := none

def DurableScrubber.new (recordsPerCycle : ℕ) : DurableScrubber where
  recordsPerCycle := max recordsPerCycle 1

def corruptionsOf (records : List (Key × Bytes)) : List DurableScrubCorruption :=
  records.filterMap fun (key, bytes) ↦
    match decodeRecord key bytes with
    | .ok _ => none
    | .error error => some ⟨key, error.message⟩

def DurableScrubber.scrubCycle (scrubber : DurableScrubber) (store : DurableValueStore) :
    Option (Except ValueStoreError DurableScrubReport × DurableScrubber) := do
  let batch ← store.rawRecordBatchAfter scrubber.cursor (wrappingSucc scrubber.recordsPerCycle)
  match batch with
  | .error error => some (.error error, scrubber)
  | .ok batch =>
    let hasMore := decide (scrubber.recordsPerCycle < batch.length)
    let records := batch.take scrubber.recordsPerCycle
    let cursor := if hasMore then (records.getLast?).map Prod.fst else none
    some (.ok {
      checkedKeys := records.map Prod.fst
      recordsChecked := records.length
      corruptionCount := (corruptionsOf records).length
      corruptions := corruptionsOf records
      cursor
      finishedPass := !hasMore }, { scrubber with cursor })

/-- The reports of the cycles of a pass, at most so many. It ends with the first cycle that finishes
it, or that fails. -/
def scrubPass (store : DurableValueStore) : ℕ → DurableScrubber → List DurableScrubReport
  | 0, _ => []
  | cycles + 1, scrubber =>
    match scrubber.scrubCycle store with
    | some (.ok report, next) =>
      report :: if report.finishedPass then [] else scrubPass store cycles next
    | _ => []

/-- The reports are those of a finished pass over the records. -/
structure Checks (reports : List DurableScrubReport) (records : List (Key × Bytes)) : Prop where
  finished : ∃ report ∈ reports, report.finishedPass = true
  keys : reports.flatMap DurableScrubReport.checkedKeys = records.map Prod.fst
  corruptions : reports.flatMap DurableScrubReport.corruptions = corruptionsOf records

/-- A record as it is stored. -/
def storedRow (row : Key × Bytes) : Bytes × Bytes := (recordKey row.1, row.2)

variable {store : DurableValueStore} {rows done todo : List (Key × Bytes)} {after : Key} {limit : ℕ}
  {cursor : Option Key}

/-! ### A batch -/

/-- Assumes: no record behind a row that is none, so that the first such row ends the records. -/
theorem rawRecordsAfter_eq {stored : List (Bytes × Bytes)} {records : List (Key × Bytes)}
    (hsto : stored.Pairwise fun row other ↦ isRecordKey other.1 → isRecordKey row.1)
    (hrows : stored.filter (isRecordKey ·.1) = rows.map storedRow)
    (hroom : records.length < limit) :
    rawRecordsAfter after limit stored records =
      .ok (records ++ (rows.filter fun row ↦ utf8 after < utf8 row.1).take
        (limit - records.length)) := by
  induction stored generalizing rows records with
  | nil =>
    cases map_eq_nil_iff.mp hrows.symm
    simp [rawRecordsAfter]
  | cons row _ ih =>
    obtain ⟨hfirst, htail⟩ := pairwise_cons.mp hsto
    by_cases hrec : isRecordKey row.1
    · rw [filter_cons, if_pos hrec] at hrows
      obtain ⟨first, rest, rfl, rfl, hrest⟩ := map_eq_cons_iff.mp hrows.symm
      rw [storedRow, rawRecordsAfter, if_pos (isRecordKey_recordKey _),
        storedKeyToCacheKey_recordKey, ok_bind]
      split_ifs with hkey hfull
      · rw [ih htail hrest.symm hroom, filter_cons_of_neg (by simpa using hkey)]
      · rw [length_append, length_singleton] at hfull
        rw [filter_cons_of_pos (by simpa using hkey), ← hfull, Nat.add_sub_cancel_left]
        rfl
      · rw [length_append, length_singleton] at hfull
        rw [ih htail hrest.symm (by simp; omega), filter_cons_of_pos (by simpa using hkey),
          length_append, length_singleton, append_assoc, Nat.sub_add_eq]
        obtain ⟨room, hroom⟩ := Nat.exists_eq_add_of_lt (Nat.sub_pos_of_lt hroom)
        simp [hroom]
    · -- what follows is no record either
      rw [filter_cons, if_neg hrec, filter_eq_nil_iff.mpr fun other hother h ↦
        hrec (hfirst other hother h)] at hrows
      cases map_eq_nil_iff.mp hrows.symm
      simp [rawRecordsAfter, hrec]

/-- What stands after a prefix of rows in order is what is above its last key. -/
theorem filter_above_last
    (hsort : (done ++ todo).Pairwise fun row other ↦ utf8 row.1 < utf8 other.1) {last : Key × Bytes}
    (hlast : last ∈ done.getLast?) :
    (done ++ todo).filter (fun row ↦ utf8 last.1 < utf8 row.1) = todo := by
  obtain ⟨front, rfl⟩ := getLast?_eq_some_iff.mp hlast
  obtain ⟨hdone, -, htodo⟩ := pairwise_append.mp hsort
  rw [filter_append, filter_eq_nil_iff.mpr, filter_eq_self.mpr, nil_append]
  · intro row hrow
    simpa using htodo last (by simp) row hrow
  · intro row hrow
    rcases mem_append.mp hrow with hrow | hrow
    · simpa using ((pairwise_append.mp hdone).2.2 row hrow last (by simp)).le
    · simp [mem_singleton.mp hrow]

section

variable (hrows : store.db.scan isRecordKey = rows.map storedRow)
include hrows

/-- Rows stored under their keys stand in the order of the keys. -/
theorem sorted_of_scan : rows.Pairwise fun row other ↦ utf8 row.1 < utf8 other.1 := by
  have hsort := sorted_scan isRecordKey store.db
  rw [hrows, pairwise_map] at hsort
  refine hsort.imp fun hlt ↦ not_le.mp fun hle ↦ ?_
  rcases hle.eq_or_lt with heq | hgt
  · exact hlt.ne (congrArg (recordPrefix ++ ·) heq.symm)
  · exact hlt.asymm (append_left_lt hgt)

/-- The batch after the records that are done is the beginning of the others. -/
theorem rawRecordBatchAfter_eq (limit : ℕ) (hlimit : max limit 1 ≤ maxRawRecords)
    (hsplit : rows = done ++ todo) :
    store.rawRecordBatchAfter ((done.getLast?).map Prod.fst) limit =
      some (.ok (todo.take (max limit 1))) := by
  unfold DurableValueStore.rawRecordBatchAfter
  rw [if_neg hlimit.not_gt]
  refine congrArg some ?_
  cases hlast : done.getLast? with
  | none =>
    rw [getLast?_eq_none_iff.mp hlast, nil_append] at hsplit
    subst hsplit
    simp only [Option.map_none, hrows, ← map_take]
    induction rows.take (max limit 1) with
    | nil => rfl
    | cons _ _ ih =>
      rw [map_cons, mapM_cons, storedRow, storedKeyToCacheKey_recordKey, ok_bind, ih]
      rfl
  | some last =>
    have hfirst : (store.db.scan fun stored ↦ recordKey last.1 ≤ stored).Pairwise
        fun row other ↦ isRecordKey other.1 → isRecordKey row.1 := by
      refine (sorted_scan _ store.db).imp_of_mem fun {row other} hrow _ hlt hother ↦ ?_
      obtain ⟨tail, htail⟩ := List.isPrefixOf_iff_prefix.mp hother
      have hle := of_decide_eq_true (store.db.mem_scan_iff.mp hrow).1
      exact isPrefixOf_of_le_of_le hle (htail ▸ hlt.le)
    have hrecs : (store.db.scan fun stored ↦ recordKey last.1 ≤ stored).filter (isRecordKey ·.1) =
        (rows.filter fun row ↦ recordKey last.1 ≤ recordKey row.1).map storedRow := by
      have habove := congrArg (filter fun row ↦ decide (recordKey last.1 ≤ row.1)) hrows
      rw [filter_map, scan, filter_filter] at habove
      rw [scan, filter_filter]
      exact (filter_congr fun row _ ↦ Bool.and_comm _ _).trans habove
    have htodo : ((rows.filter fun row ↦ recordKey last.1 ≤ recordKey row.1).filter fun row ↦
        utf8 last.1 < utf8 row.1) = todo := by
      have hsort := sorted_of_scan hrows
      rw [hsplit] at hsort
      rw [filter_filter, hsplit]
      refine Eq.trans ?_ (filter_above_last hsort hlast)
      refine filter_congr fun row _ ↦ ?_
      by_cases hlt : utf8 last.1 < utf8 row.1
      · simp [hlt, (append_left_lt hlt).le, recordKey]
      · simp [hlt]
    refine (rawRecordsAfter_eq hfirst hrecs (by simp)).trans ?_
    rw [htodo]
    rfl

end

/-! ### A pass -/

section

variable (hbatch : store.rawRecordBatchAfter cursor (wrappingSucc limit) =
  some (.ok (todo.take (limit + 1))))
include hbatch

/-- The report of a cycle, from a batch that shows whether there is more. -/
theorem scrubCycle_eq : ∃ report,
    DurableScrubber.scrubCycle ⟨limit, cursor⟩ store = some (.ok report, ⟨limit, report.cursor⟩) ∧
      report.checkedKeys = (todo.take limit).map Prod.fst ∧
      report.corruptions = corruptionsOf (todo.take limit) ∧
      report.finishedPass = !decide (limit < todo.length) ∧
      (limit < todo.length → report.cursor = ((todo.take limit).getLast?).map Prod.fst) := by
  have htake : (todo.take (limit + 1)).take limit = todo.take limit := by
    rw [take_take, Nat.min_eq_left (Nat.le_succ limit)]
  unfold DurableScrubber.scrubCycle
  simp only [hbatch, htake, Option.bind_eq_bind, Option.bind_some]
  refine ⟨_, rfl, rfl, rfl, by simp, fun hmore ↦ ?_⟩
  simp [hmore.not_ge]

theorem checks_of_le (hle : todo.length ≤ limit) (cycles : ℕ) :
    Checks (scrubPass store (cycles + 1) ⟨limit, cursor⟩) todo := by
  obtain ⟨report, hreport, hkeys, hcorr, hfin, -⟩ := scrubCycle_eq hbatch
  rw [decide_eq_false hle.not_gt] at hfin
  rw [take_of_length_le hle] at hkeys hcorr
  have hpass : scrubPass store (cycles + 1) ⟨limit, cursor⟩ = [report] := by
    rw [scrubPass, hreport]
    simp [hfin]
  rw [hpass]
  exact ⟨⟨report, mem_singleton_self report, hfin⟩, by simpa, by simpa⟩

end

section

variable (hrows : store.db.scan isRecordKey = rows.map storedRow)
include hrows

/-- Assumes: the vector of a batch can be made. A pass over the records to be done checks each of
them. -/
theorem scrubPass_eq (hlimit : limit < maxRawRecords) (hpos : 0 < limit)
    (hcursor : cursor = (done.getLast?).map Prod.fst) (hsplit : rows = done ++ todo) :
    ∃ cycles, Checks (scrubPass store cycles ⟨limit, cursor⟩) todo := by
  induction hlen : todo.length using Nat.strongRecOn generalizing done todo cursor with
  | ind _ ih =>
    have hbatch : store.rawRecordBatchAfter cursor (wrappingSucc limit) =
        some (.ok (todo.take (limit + 1))) := by
      rw [wrappingSucc_of_le (hlimit.le.trans (by decide)), hcursor,
        rawRecordBatchAfter_eq hrows _ (Nat.max_le.mpr ⟨hlimit, by decide⟩) hsplit,
        Nat.max_eq_left (Nat.le_add_left 1 _)]
    by_cases hmore : limit < todo.length
    · obtain ⟨report, hreport, hkeys, hcorr, hfin, hnext⟩ := scrubCycle_eq hbatch
      have hlast : report.cursor = ((done ++ todo.take limit).getLast?).map Prod.fst := by
        rw [hnext hmore, getLast?_append_of_ne_nil]
        exact ne_nil_of_length_pos (by rw [length_take]; omega)
      obtain ⟨cycles, hchecks⟩ := ih (todo.drop limit).length (by rw [length_drop]; omega) hlast
        (by rw [hsplit, append_assoc, take_append_drop]) rfl
      have hpass : scrubPass store (cycles + 1) ⟨limit, cursor⟩ =
          report :: scrubPass store cycles ⟨limit, report.cursor⟩ := by
        rw [scrubPass, hreport]
        simp [hfin, hmore]
      refine ⟨cycles + 1, ?_⟩
      rw [hpass]
      refine ⟨?_, ?_, ?_⟩
      · obtain ⟨last, hmem, hlast⟩ := hchecks.finished
        exact ⟨last, mem_cons_of_mem _ hmem, hlast⟩
      · rw [flatMap_cons, hchecks.keys, hkeys, ← map_append, take_append_drop]
      · rw [flatMap_cons, hchecks.corruptions, hcorr, corruptionsOf, corruptionsOf,
          ← filterMap_append, take_append_drop]
        rfl
    · exact ⟨1, checks_of_le hbatch (Nat.le_of_not_gt hmore) 0⟩

/-- With the largest limit the batch is made for one record, and nothing shows that there are
more. -/
theorem checks_of_maxWord (cycles : ℕ) :
    Checks (scrubPass store (cycles + 1) (.new maxWord)) (rows.take 1) := by
  refine checks_of_le ?_ ((length_take_le 1 rows).trans (by decide)) cycles
  rw [take_take]
  exact rawRecordBatchAfter_eq hrows 0 (by decide) (nil_append rows).symm

/-- Assumes: the records of the store in the order of their keys, and a limit that is a word. Some
number of cycles is a pass that checks each of them exactly when the vector of a batch can be made,
or the limit is the largest word, whose successor is zero, and there is one record at most. -/
theorem checks_iff {recordsPerCycle : ℕ} (hword : recordsPerCycle ≤ maxWord) :
    (∃ cycles, Checks (scrubPass store cycles (.new recordsPerCycle)) rows) ↔
      recordsPerCycle < maxRawRecords ∨ recordsPerCycle = maxWord ∧ rows.length ≤ 1 := by
  rcases Nat.lt_or_ge recordsPerCycle maxRawRecords with hlimit | hlimit
  · refine iff_of_true (scrubPass_eq hrows ?_ ?_ rfl (nil_append rows).symm) (.inl hlimit)
    · exact Nat.max_lt.mpr ⟨hlimit, by decide⟩
    · exact Nat.lt_of_lt_of_le Nat.one_pos (Nat.le_max_right _ _)
  rw [or_iff_right hlimit.not_gt]
  by_cases htop : recordsPerCycle = maxWord
  · subst htop
    have hpass := checks_of_maxWord hrows
    rw [and_iff_right rfl]
    constructor
    · rintro ⟨cycles, hchecks⟩
      cases cycles with
      | zero => simpa [scrubPass] using hchecks.finished
      | succ cycles =>
        have hlen := congrArg length (hchecks.keys.symm.trans (hpass cycles).keys)
        rw [length_map, length_map, length_take] at hlen
        omega
    · intro hone
      rw [take_of_length_le hone] at hpass
      exact ⟨1, hpass 0⟩
  · -- the first cycle panics
    refine iff_of_false ?_ fun h ↦ htop h.1
    rintro ⟨cycles, hchecks⟩
    obtain ⟨report, hmem, -⟩ := hchecks.finished
    have hsum :=
      wrappingSucc_of_le (n := recordsPerCycle) (by unfold wordSize; unfold maxWord at *; omega)
    have hpos : max recordsPerCycle 1 = recordsPerCycle :=
      Nat.max_eq_left ((by decide : 1 ≤ maxRawRecords).trans hlimit)
    have hnone : (DurableScrubber.new recordsPerCycle).scrubCycle store = none := by
      unfold DurableScrubber.scrubCycle DurableValueStore.rawRecordBatchAfter DurableScrubber.new
      rw [hpos, hsum, if_pos (by omega)]
      rfl
    cases cycles with
    | zero => simp [scrubPass] at hmem
    | succ => simp [scrubPass, hnone] at hmem

end

/-- Three records, one for a cycle. -/
theorem checks_iff_of_three :
    let rows : List (Key × Bytes) := [("a", [1]), ("b", [2]), ("c", [3])]
    let store : DurableValueStore :=
      ⟨rows.foldl (fun db row ↦ db.insert (recordKey row.1) row.2) ∅, 1, 0, 0⟩
    store.db.scan isRecordKey = rows.map storedRow ∧
      (scrubPass store 2 (.new 1)).flatMap (·.checkedKeys) = ["a", "b"] ∧
      ∃ cycles, Checks (scrubPass store cycles (.new 1)) rows := by
  intro rows store
  have hrows : store.db.scan isRecordKey = rows.map storedRow := by decide +kernel
  exact ⟨hrows, by decide +kernel, (checks_iff hrows (by decide)).mpr (.inl (by decide))⟩

/-- The largest limit: the pass is over after the first of two records. -/
theorem pass_ends_after_one :
    let store : DurableValueStore :=
      ⟨((∅ : OrderedMap Bytes Bytes).insert (recordKey "a") [1]).insert (recordKey "b") [2],
        1, 0, 0⟩
    store.db.scan isRecordKey = [("a", [1]), ("b", [2])].map storedRow ∧
      ∀ cycles, Checks (scrubPass store (cycles + 1) (.new maxWord)) [("a", [1])] := by
  intro store
  have hrows : store.db.scan isRecordKey = [("a", [1]), ("b", [2])].map storedRow := by
    decide +kernel
  exact ⟨hrows, checks_of_maxWord hrows⟩

end HydraCache.Grid
