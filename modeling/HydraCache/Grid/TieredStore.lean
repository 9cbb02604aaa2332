import HydraCache.Grid.DurableStore

/-!
# The tiered value store

A tiered store keeps copies of recently used records in a hot tier beside the cold store it writes
to. A write goes to the cold store and then into the hot tier; when the hot tier outgrows its
budget, the records used longest ago leave it and are written to the cold store again.

The cold store absorbs what it is given a second time, so it holds what it would hold alone
(`Mirrors`). Two things can be seen from outside. The records that have to leave the hot tier may
not fit the cold store in the place of the newer ones there, which fails the call; and a scan that
owns no partition returns the hot tier. `tiered_agrees_iff` says that a store agrees with its cold
store used alone exactly along the requests that avoid both.

Scope. The cold store is the one in memory. Compaction, the byte total over both tiers and the ratio
of the tiers are left out.
-/

set_option autoImplicit false

namespace HydraCache.Grid

open Lib KeyMap List AList

/-! ### The store -/

structure TieredValueStore where
  cold : InMemoryReplicatedValueStore
  hot : KeyMap Key ReplicatedValueRecord := ∅
  /-- The keys of the hot tier, the one used longest ago first. -/
  order : List Key := []
  maxHotBytes : ℕ
  promotionsTotal : ℕ := 0
  demotionsTotal : ℕ := 0

namespace TieredValueStore

def new (cold : InMemoryReplicatedValueStore) (maxHotBytes : ℕ) : TieredValueStore where
  cold
  maxHotBytes := max maxHotBytes 1

def hotBytes (store : TieredValueStore) : ℕ :=
  total ReplicatedValueRecord.approxBytes store.hot

def get (store : TieredValueStore) (key : Key) : Option ReplicatedValueRecord :=
  match store.hot.lookup key, store.cold.get key with
  | some hot, some cold => some (hot.merge cold)
  | some hot, none => some hot
  | none, cold => cold

/-- Move records to the cold store, in the order of the keys, until the hot tier is within its
budget. -/
def demote (store : TieredValueStore) : List Key → Except ValueStoreError Unit × TieredValueStore
  | [] => (.ok (), { store with order := [] })
  | key :: order =>
    if store.hotBytes ≤ store.maxHotBytes then (.ok (), { store with order := key :: order })
    else
      match store.hot.lookup key with
      | none => store.demote order
      | some record =>
        match store.cold.upsert key record with
        | (.error error, cold) =>
          (.error error, { store with cold, hot := store.hot.erase key, order })
        | (.ok (), cold) =>
          demote
            { store with
              cold
              hot := store.hot.erase key
              demotionsTotal := saturatingSucc store.demotionsTotal }
            order

section

variable (store : TieredValueStore)

def enforceHotBudget : Except ValueStoreError Unit × TieredValueStore :=
  store.demote store.order

/-- The store with the record in its hot tier, as the one used last. -/
def withHot (key : Key) (record : ReplicatedValueRecord) : TieredValueStore :=
  { store with
    hot :=
      store.hot.insert key ((store.hot.lookup key).elim record fun current ↦ current.merge record)
    order := store.order.filter (· ≠ key) ++ [key]
    promotionsTotal := saturatingSucc store.promotionsTotal }

def promoteHot (key : Key) (record : ReplicatedValueRecord) :
    Except ValueStoreError Unit × TieredValueStore :=
  if store.maxHotBytes < record.approxBytes then (.ok (), store)
  else (store.withHot key record).enforceHotBudget

def getPromote (key : Key) :
    Except ValueStoreError (Option ReplicatedValueRecord) × TieredValueStore :=
  match store.get key with
  | none => (.ok none, store)
  | some record =>
    ((store.promoteHot key record).1.map fun _ ↦ some record, (store.promoteHot key record).2)

end

def upsert (store : TieredValueStore) (key : Key) (record : ReplicatedValueRecord) :
    Except ValueStoreError Unit × TieredValueStore :=
  match store.cold.upsert key record with
  | (.error error, cold) => (.error error, { store with cold })
  | (.ok (), cold) => promoteHot { store with cold } key record

def tombstone (store : TieredValueStore) (key : Key) (partition version epoch : ℕ) :
    Except ValueStoreError Unit × TieredValueStore :=
  store.upsert key (.tombstone partition version epoch none)

/-- Rows of the cold store with the hot tier merged into them, by key. -/
def mergeHot (store : TieredValueStore) (rows : List (Key × ReplicatedValueRecord)) :
    KeyMap Key ReplicatedValueRecord :=
  store.hot.entries.foldl
    (fun merged entry ↦ merged.insert entry.1
      ((merged.lookup entry.1).elim entry.2 fun cold ↦ cold.merge entry.2))
    (rows.foldl (fun merged row ↦ merged.insert row.1 row.2) ∅)

/-- The rows of a map in the order of the bytes of their keys. -/
def rowsInOrder (records : KeyMap Key ReplicatedValueRecord) : List (Key × ReplicatedValueRecord) :=
  InMemoryReplicatedValueStore.scanAll { records }

def scanOwned (store : TieredValueStore) (reading : List String) :
    List (Key × ReplicatedValueRecord) :=
  rowsInOrder (store.mergeHot (store.cold.scanOwned reading))

def scanAll (store : TieredValueStore) : List (Key × ReplicatedValueRecord) :=
  rowsInOrder (store.mergeHot store.cold.scanAll)

def remove (store : TieredValueStore) (key : Key) : TieredValueStore :=
  { store with
    hot := store.hot.erase key
    order := store.order.filter (· ≠ key)
    cold := store.cold.remove key }

end TieredValueStore

/-! ### Requests -/

inductive TieredRequest where
  | upsert (key : Key) (record : ReplicatedValueRecord)
  | tombstone (key : Key) (partition version epoch : ℕ)
  | get (key : Key)
  | getPromote (key : Key)
  | remove (key : Key)
  | scanOwned (reading : List String)
  | scanAll

/-- The record that a request writes. -/
def TieredRequest.written : TieredRequest → Option (Key × ReplicatedValueRecord)
  | upsert key record => some (key, record)
  | tombstone key partition version epoch => some (key, .tombstone partition version epoch none)
  | _ => none

/-- The request as the cold store alone gets it: a read that promotes is a read. -/
def TieredRequest.toCold : TieredRequest → StoreRequest
  | upsert key record => .upsert key record
  | tombstone key partition version epoch => .tombstone key partition version epoch
  | get key | getPromote key => .get key
  | remove key => .remove key
  | scanOwned reading => .scanOwned reading
  | scanAll => .scanAll

/-- The answer of the cold store alone. -/
def answerAlone (alone : InMemoryReplicatedValueStore) (request : TieredRequest) :
    Except ValueStoreError StoreReply × InMemoryReplicatedValueStore :=
  alone.answer request.toCold

def TieredValueStore.answer (store : TieredValueStore) :
    TieredRequest → Except ValueStoreError StoreReply × TieredValueStore
  | .upsert key record =>
    ((store.upsert key record).1.map fun _ ↦ .done, (store.upsert key record).2)
  | .tombstone key partition version epoch =>
    ((store.tombstone key partition version epoch).1.map fun _ ↦ .done,
      (store.tombstone key partition version epoch).2)
  | .get key => (.ok (.record (store.get key)), store)
  | .getPromote key => ((store.getPromote key).1.map .record, (store.getPromote key).2)
  | .remove key => (.ok .done, store.remove key)
  | .scanOwned reading => (.ok (.records (store.scanOwned reading)), store)
  | .scanAll => (.ok (.records store.scanAll), store)

/-! ### Stores that hold the same records -/

/-- The stores hold the same records under the same budget. -/
structure SameRecords (store other : InMemoryReplicatedValueStore) : Prop where
  records : ∀ key, store.records.lookup key = other.records.lookup key
  budget : store.maxTotalBytes = other.maxTotalBytes

namespace SameRecords

variable {store other third : InMemoryReplicatedValueStore} {key : Key}
  {record : ReplicatedValueRecord}

theorem refl (store : InMemoryReplicatedValueStore) : SameRecords store store := ⟨fun _ ↦ rfl, rfl⟩

theorem trans (h : SameRecords store other) (h' : SameRecords other third) :
    SameRecords store third :=
  ⟨fun key ↦ (h.records key).trans (h'.records key), h.budget.trans h'.budget⟩

section

variable (h : SameRecords store other) (key : Key) (record : ReplicatedValueRecord)
include h

theorem wouldFit : store.wouldFit key record = other.wouldFit key record := by
  have htotal : store.totalBytes = other.totalBytes := total_congr _ h.records
  unfold InMemoryReplicatedValueStore.wouldFit
  rw [h.records, h.budget, htotal]

theorem upsert : (store.upsert key record).1 = (other.upsert key record).1 ∧
      SameRecords (store.upsert key record).2 (other.upsert key record).2 := by
  unfold InMemoryReplicatedValueStore.upsert
  rw [h.wouldFit, h.records]
  split_ifs
  · refine ⟨rfl, fun found ↦ ?_, h.budget⟩
    rw [lookup_insert_apply, lookup_insert_apply, h.records]
  · exact ⟨rfl, h.records, h.budget⟩

theorem remove : SameRecords (store.remove key) (other.remove key) := by
  refine ⟨fun found ↦ ?_, h.budget⟩
  change (store.records.erase key).lookup found = (other.records.erase key).lookup found
  rw [lookup_erase_apply, lookup_erase_apply, h.records]

theorem scanAll : store.scanAll = other.scanAll := by
  let order (row other : Key × ReplicatedValueRecord) : Prop := utf8 row.1 < utf8 other.1
  have hasymm : Std.Asymm order := ⟨fun _ _ ↦ lt_asymm⟩
  refine Pairwise.eq_of_mem_iff (r := order) (sorted_scanAll store) (sorted_scanAll other) fun row ↦
    ?_
  rw [mem_scanAll_iff, mem_scanAll_iff, h.records]

end

end SameRecords

/-! ### The tiers -/

/-- Records of one key with the same (version, epoch) are the same. -/
def Identified (rows : Set (Key × ReplicatedValueRecord)) : Prop :=
  ∀ key first second, (key, first) ∈ rows → (key, second) ∈ rows → first.order = second.order →
    first = second

variable {rows : Set (Key × ReplicatedValueRecord)} {key : Key}
  {record older : ReplicatedValueRecord}

/-- A merge with a record that is not newer changes nothing, on either side. -/
theorem Identified.merge_eq (h : Identified rows) (hrec : (key, record) ∈ rows)
    (holder : (key, older) ∈ rows) (hle : older.order ≤ record.order) :
    record.merge older = record ∧ older.merge record = record := by
  rcases lt_or_eq_of_le hle with hlt | heq
  · exact ⟨ReplicatedValueRecord.merge_of_gt hlt, ReplicatedValueRecord.merge_of_lt hlt⟩
  · rw [h key older record holder hrec heq]
    exact ⟨ReplicatedValueRecord.merge_self .., ReplicatedValueRecord.merge_self ..⟩

namespace ReplicatedValueRecord

theorem le_order_merge (a b : ReplicatedValueRecord) :
    a.order ≤ (a.merge b).order ∧ b.order ≤ (a.merge b).order :=
  (selectsBy_merge.le_rank a b).imp (Prod.Lex.monotone_fst _ _) (Prod.Lex.monotone_fst _ _)

theorem merge_eq_or (a b : ReplicatedValueRecord) : a.merge b = a ∨ a.merge b = b :=
  selectsBy_merge.either a b

end ReplicatedValueRecord

namespace TieredValueStore

/-- The records of both tiers are known, and none of the hot tier is ahead of the cold store. -/
structure Tiers (rows : Set (Key × ReplicatedValueRecord)) (store : TieredValueStore) : Prop where
  coldKnown : ∀ key record, store.cold.records.lookup key = some record → (key, record) ∈ rows
  hotKnown : ∀ key record, store.hot.lookup key = some record → (key, record) ∈ rows
  behind : ∀ key hot, store.hot.lookup key = some hot →
    ∃ cold, store.cold.records.lookup key = some cold ∧ hot.order ≤ cold.order

/-- The store stands for its cold store used alone, with so many bytes in the hot tier at most. -/
structure Mirrors (rows : Set (Key × ReplicatedValueRecord)) (maxHotBytes : ℕ)
    (store : TieredValueStore) (alone : InMemoryReplicatedValueStore) : Prop where
  tiers : Tiers rows store
  same : SameRecords store.cold alone
  listed : ∀ key ∈ store.hot, key ∈ store.order
  within : store.hotBytes ≤ maxHotBytes
  budget : store.maxHotBytes = maxHotBytes

/-- The keys that leave the hot tier until it is within its budget. -/
def evicted (maxHotBytes : ℕ) : KeyMap Key ReplicatedValueRecord → List Key → List Key
  | _, [] => []
  | hot, key :: order =>
    if total ReplicatedValueRecord.approxBytes hot ≤ maxHotBytes then []
    else key :: evicted maxHotBytes (hot.erase key) order

/-- Every record that has to leave the hot tier fits the cold store in the place of the one
there. -/
def Demotable (store : TieredValueStore) (order : List Key) : Prop :=
  ∀ key ∈ evicted store.maxHotBytes store.hot order, ∀ record ∈ store.hot.lookup key,
    store.cold.wouldFit key record = true

variable {store : TieredValueStore} {alone : InMemoryReplicatedValueStore} {maxHotBytes : ℕ}
  {cold : InMemoryReplicatedValueStore}

theorem Mirrors.of_same {other : InMemoryReplicatedValueStore}
    (h : Mirrors rows maxHotBytes store other) (hsame : SameRecords other alone) :
    Mirrors rows maxHotBytes store alone :=
  { h with same := h.same.trans hsame }

/-- Assumes: a record that fits. The cold store takes it back as it was. -/
theorem Tiers.upsert_cold (h : Tiers rows store) (hrows : Identified rows)
    (hhot : store.hot.lookup key = some record) (hfits : store.cold.wouldFit key record = true) :
    (store.cold.upsert key record).1 = .ok () ∧
      SameRecords (store.cold.upsert key record).2 store.cold := by
  obtain ⟨cold, hcold, hle⟩ := h.behind key record hhot
  have hmerge := (hrows.merge_eq (h.coldKnown key cold hcold) (h.hotKnown key record hhot) hle).1
  rw [InMemoryReplicatedValueStore.upsert, if_pos hfits, hcold]
  refine ⟨rfl, fun found ↦ ?_, rfl⟩
  change (store.cold.records.insert key (cold.merge record)).lookup found = _
  rw [hmerge, lookup_insert_apply]
  split_ifs with hfound
  · rw [hfound, hcold]
  · rfl

/-- The hot tier without a key. -/
theorem Tiers.erase (h : Tiers rows store)
    (hsame : SameRecords cold store.cold) (key : Key) (demotionsTotal : ℕ) :
    Tiers rows { store with cold, hot := store.hot.erase key, demotionsTotal } := by
  refine ⟨fun found record hfound ↦ ?_, fun found record hfound ↦ ?_, fun found hot hfound ↦ ?_⟩
  · exact h.coldKnown found record ((hsame.records found).symm.trans hfound)
  · exact h.hotKnown found record (of_lookup_erase hfound).2
  · obtain ⟨record, hrec, hle⟩ := h.behind found hot (of_lookup_erase hfound).2
    exact ⟨record, (hsame.records found).trans hrec, hle⟩

/-- The store after a record left its hot tier. -/
def withoutHot (store : TieredValueStore) (key : Key) (cold : InMemoryReplicatedValueStore) :
    TieredValueStore :=
  { store with
    cold
    hot := store.hot.erase key
    demotionsTotal := saturatingSucc store.demotionsTotal }

section Demotion

variable {order : List Key}

theorem demotable_of_within (hwithin : store.hotBytes ≤ store.maxHotBytes) (order : List Key) :
    store.Demotable order := by
  intro key hkey
  have hnone : evicted store.maxHotBytes store.hot order = [] := by
    cases order with
    | nil => rfl
    | cons => exact if_pos hwithin
  simp [hnone] at hkey

theorem demotable_cons_iff (hover : ¬ store.hotBytes ≤ store.maxHotBytes) :
    store.Demotable (key :: order) ↔
      (∀ record ∈ store.hot.lookup key, store.cold.wouldFit key record = true) ∧
        ∀ found ∈ evicted store.maxHotBytes (store.hot.erase key) order,
          ∀ record ∈ store.hot.lookup found, store.cold.wouldFit found record = true := by
  have hevict : evicted store.maxHotBytes store.hot (key :: order) =
      key :: evicted store.maxHotBytes (store.hot.erase key) order := if_neg hover
  rw [Demotable, hevict, forall_mem_cons]

section

variable (order : List Key) (hover : ¬ store.hotBytes ≤ store.maxHotBytes)
include hover

/-- A key that is not of the hot tier is passed over. -/
theorem demote_cons_of_none (hhot : store.hot.lookup key = none) :
    store.demote (key :: order) = store.demote order ∧
      (store.Demotable (key :: order) ↔ store.Demotable order) := by
  constructor
  · rw [demote, if_neg hover, hhot]
  · rw [demotable_cons_iff hover, hhot, erase_of_lookup_eq_none hhot]
    exact and_iff_right fun _ hnone ↦ (Option.not_mem_none _ hnone).elim

/-- Assumes: a record that fits the cold store, which takes it back as it was. -/
theorem demote_cons_of_fits (hhot : store.hot.lookup key = some record)
    (hfits : store.cold.wouldFit key record = true)
    (hcold : store.cold.upsert key record = (.ok (), cold)) (hsame : SameRecords cold store.cold) :
    store.demote (key :: order) = (store.withoutHot key cold).demote order ∧
      (store.Demotable (key :: order) ↔ (store.withoutHot key cold).Demotable order) := by
  constructor
  · rw [demote, if_neg hover, hhot]
    dsimp only
    rw [hcold]
    rfl
  · rw [demotable_cons_iff hover, hhot]
    have hhead : ∀ found ∈ some record, store.cold.wouldFit key found = true := by
      rintro _ ⟨⟩
      exact hfits
    rw [and_iff_right hhead]
    refine forall₂_congr fun found hfound ↦ ?_
    by_cases hkey : found = key
    · rw [hkey, hhot]
      refine iff_of_true hhead fun other hother ↦ ?_
      cases (lookup_erase key store.hot).symm.trans hother
    · have hlook : (store.withoutHot key cold).hot.lookup found = store.hot.lookup found :=
        lookup_erase_ne hkey
      rw [hlook]
      exact forall₂_congr fun other _ ↦ by rw [← hsame.wouldFit]; rfl

theorem demote_cons_of_not_fits (hhot : store.hot.lookup key = some record)
    (hfits : store.cold.wouldFit key record = false) :
    (store.demote (key :: order)).1 = .error ⟨"replicated value store total byte budget exceeded"⟩ ∧
      ¬ store.Demotable (key :: order) := by
  constructor
  · rw [demote, if_neg hover, hhot]
    dsimp only
    rw [InMemoryReplicatedValueStore.upsert, hfits]
    rfl
  · rw [demotable_cons_iff hover]
    intro hdem
    exact Bool.eq_false_iff.mp hfits (hdem.1 record hhot)

end

/-- Assumes: a list with the keys of the hot tier. The demotion succeeds exactly when all that has
to leave the hot tier fits the cold store, which then is as it was. -/
theorem Tiers.demote (h : Tiers rows store) (hrows : Identified rows)
    (hlist : ∀ key ∈ store.hot, key ∈ order) :
    ((store.demote order).1 = .ok () ↔ store.Demotable order) ∧
      (store.Demotable order →
        Mirrors rows store.maxHotBytes (store.demote order).2 store.cold) := by
  induction order generalizing store with
  | nil =>
    have hwithin : store.hotBytes ≤ store.maxHotBytes :=
      (total_eq_zero_of_lookup _ fun key ↦ lookup_eq_none.mpr fun hkey ↦
        not_mem_nil (hlist key hkey)).le.trans (Nat.zero_le _)
    exact ⟨iff_of_true rfl (demotable_of_within hwithin []),
      fun _ ↦ ⟨{ h with }, .refl _, hlist, hwithin, rfl⟩⟩
  | cons key order ih =>
    have hrest (found : Key) (hfound : found ∈ store.hot) (hne : found ≠ key) : found ∈ order :=
      (mem_cons.mp (hlist found hfound)).resolve_left hne
    by_cases hwithin : store.hotBytes ≤ store.maxHotBytes
    · have hdemote : store.demote (key :: order) = (.ok (), { store with order := key :: order }) :=
        if_pos hwithin
      rw [hdemote]
      exact ⟨iff_of_true rfl (demotable_of_within hwithin _),
        fun _ ↦ ⟨{ h with }, .refl _, hlist, hwithin, rfl⟩⟩
    · cases hhot : store.hot.lookup key with
      | none =>
        obtain ⟨hdemote, hiff⟩ := demote_cons_of_none order hwithin hhot
        rw [hdemote, hiff]
        refine ih h fun found hfound ↦ hrest found hfound ?_
        rintro rfl
        exact lookup_eq_none.mp hhot hfound
      | some record =>
        cases hfits : store.cold.wouldFit key record with
        | false =>
          obtain ⟨hdemote, hnot⟩ := demote_cons_of_not_fits order hwithin hhot hfits
          rw [hdemote]
          exact ⟨iff_of_false nofun hnot, fun hdem ↦ (hnot hdem).elim⟩
        | true =>
          obtain ⟨hok, hsame⟩ := h.upsert_cold hrows hhot hfits
          generalize hcold : (store.cold.upsert key record).2 = cold at hsame
          obtain ⟨hdemote, hiff⟩ :=
            demote_cons_of_fits order hwithin hhot hfits (Prod.ext hok hcold) hsame
          rw [hdemote, hiff]
          obtain ⟨hokRest, hmirr⟩ := @ih (store.withoutHot ..) (h.erase hsame key _)
            fun found hfound ↦ by
              obtain ⟨hne, hmem⟩ := mem_erase.mp hfound
              exact hrest found hmem hne
          refine ⟨hokRest, fun hdem ↦ ?_⟩
          exact (hmirr hdem).of_same hsame

end Demotion

/-! ### Promotion -/

/-- The record can be taken into the hot tier: it is too large for it, or everything that has to
leave the hot tier for it fits the cold store. -/
def Promotable (store : TieredValueStore) (key : Key) (record : ReplicatedValueRecord) : Prop :=
  record.approxBytes ≤ store.maxHotBytes →
    (store.withHot key record).Demotable (store.withHot key record).order

/-- Assumes: a record that the cold store is not behind of. -/
theorem Tiers.withHot {cold : ReplicatedValueRecord} (h : Tiers rows store)
    (hrec : (key, record) ∈ rows) (hcold : store.cold.records.lookup key = some cold)
    (hle : record.order ≤ cold.order) :
    Tiers rows (store.withHot key record) := by
  -- the hot tier gets the record or keeps the one it has
  have hhot : ∀ found other, (store.withHot key record).hot.lookup found = some other →
      store.hot.lookup found = some other ∨ found = key ∧ other = record := by
    intro found other hfound
    obtain ⟨hkey, rfl⟩ | hfound := of_lookup_insert hfound
    · cases hcur : store.hot.lookup key with
      | none => exact .inr ⟨hkey, rfl⟩
      | some current =>
        rcases current.merge_eq_or record with heq | heq
        · exact .inl (by rw [hkey, hcur]; exact congrArg some heq.symm)
        · exact .inr ⟨hkey, heq⟩
    · exact .inl hfound
  refine ⟨h.coldKnown, fun found other hfound ↦ ?_, fun found other hfound ↦ ?_⟩
  · rcases hhot found other hfound with hold | ⟨rfl, rfl⟩
    · exact h.hotKnown found other hold
    · exact hrec
  · rcases hhot found other hfound with hold | ⟨rfl, rfl⟩
    · exact h.behind found other hold
    · exact ⟨cold, hcold, hle⟩

theorem listed_withHot (h : ∀ key ∈ store.hot, key ∈ store.order) (key : Key)
    (record : ReplicatedValueRecord) :
    ∀ found ∈ (store.withHot key record).hot, found ∈ (store.withHot key record).order := by
  intro found hfound
  rw [withHot, mem_append, mem_filter, mem_singleton]
  by_cases hkey : found = key
  · exact .inr hkey
  · exact .inl ⟨h found ((mem_insert _).mp hfound |>.resolve_left hkey), decide_eq_true hkey⟩

section

variable {cold : ReplicatedValueRecord} (h : Mirrors rows maxHotBytes store alone)
  (hrows : Identified rows)
include h hrows

theorem Mirrors.promoteHot (hrec : (key, record) ∈ rows)
    (hcold : store.cold.records.lookup key = some cold) (hle : record.order ≤ cold.order) :
    ((store.promoteHot key record).1 = .ok () ↔ store.Promotable key record) ∧
      (store.Promotable key record →
        Mirrors rows maxHotBytes (store.promoteHot key record).2 alone) := by
  unfold TieredValueStore.promoteHot Promotable
  by_cases hsize : store.maxHotBytes < record.approxBytes
  · rw [if_pos hsize]
    exact ⟨iff_of_true rfl fun hle ↦ absurd hle (not_le.mpr hsize), fun _ ↦ h⟩
  · rw [if_neg hsize]
    obtain ⟨hok, hmirr⟩ :=
      (h.tiers.withHot hrec hcold hle).demote hrows (listed_withHot h.listed key record)
    refine ⟨hok.trans ⟨fun hdem _ ↦ hdem, fun hfits ↦ hfits (not_lt.mp hsize)⟩, fun hfits ↦ ?_⟩
    rw [← h.budget]
    exact (hmirr (hfits (not_lt.mp hsize))).of_same h.same

/-! ### Requests of a store that stands for its cold store -/

theorem Mirrors.get (key : Key) : store.get key = alone.get key := by
  have hsame : store.cold.get key = alone.get key := h.same.records key
  rw [TieredValueStore.get, hsame]
  cases hhot : store.hot.lookup key with
  | none => rfl
  | some hot =>
    obtain ⟨cold, hcold, hle⟩ := h.tiers.behind key hot hhot
    have halone : alone.get key = some cold := hsame.symm.trans hcold
    rw [halone]
    exact congrArg some
      (hrows.merge_eq (h.tiers.coldKnown key cold hcold) (h.tiers.hotKnown key hot hhot) hle).2

theorem Mirrors.getPromote (key : Key) : ((store.getPromote key).1 = .ok (alone.get key) ↔
        ∀ record ∈ store.get key, store.Promotable key record) ∧
      ((∀ record ∈ store.get key, store.Promotable key record) →
        Mirrors rows maxHotBytes (store.getPromote key).2 alone) := by
  have hget := h.get hrows key
  rw [TieredValueStore.getPromote, hget]
  cases halone : alone.get key with
  | none => exact ⟨iff_of_true rfl fun _ hnone ↦ (Option.not_mem_none _ hnone).elim, fun _ ↦ h⟩
  | some record =>
    have hcold : store.cold.records.lookup key = some record := (h.same.records key).trans halone
    obtain ⟨hok, hmirr⟩ :=
      h.promoteHot hrows (h.tiers.coldKnown key record hcold) hcold le_rfl
    simp only [Option.mem_some_iff, forall_eq']
    refine ⟨Iff.trans ?_ hok, hmirr⟩
    cases (store.promoteHot key record).1 with
    | error => exact iff_of_false nofun nofun
    | ok => exact iff_of_true rfl rfl

end

/-- A write of the cold store leaves the hot tier behind it. -/
theorem Tiers.write (h : Tiers rows store) (hrec : (key, record) ∈ rows) :
    Tiers rows { store with cold := (store.cold.upsert key record).2 } ∧
      ((store.cold.upsert key record).1 = .ok () →
        ∃ cold, (store.cold.upsert key record).2.records.lookup key = some cold ∧
          record.order ≤ cold.order) := by
  unfold InMemoryReplicatedValueStore.upsert
  split_ifs
  · -- the record under the key is the newer of the two
    have hnew : ∃ cold, (store.cold.records.lookup key).elim record (·.merge record) = cold ∧
        (key, cold) ∈ rows ∧ record.order ≤ cold.order ∧
        ∀ old, store.cold.records.lookup key = some old → old.order ≤ cold.order := by
      cases hcold : store.cold.records.lookup key with
      | none => exact ⟨record, rfl, hrec, le_rfl, fun old hold ↦ by cases hold⟩
      | some current =>
        obtain ⟨hcur, hle⟩ := current.le_order_merge record
        refine ⟨current.merge .., rfl, ?_, hle, ?_⟩
        · rcases current.merge_eq_or record with heq | heq
          · rw [heq]
            exact h.coldKnown key current hcold
          · rwa [heq]
        · rintro old ⟨⟩
          exact hcur
    obtain ⟨cold, hcold, hknown, hle, hold⟩ := hnew
    rw [hcold]
    refine ⟨⟨fun found other hfound ↦ ?_, h.hotKnown, fun found hot hfound ↦ ?_⟩,
      fun _ ↦ ⟨cold, lookup_insert _, hle⟩⟩
    · obtain ⟨rfl, rfl⟩ | hfound := of_lookup_insert hfound
      · exact hknown
      · exact h.coldKnown found other hfound
    · obtain ⟨current, hcur, hbeh⟩ := h.behind found hot hfound
      rw [lookup_insert_apply]
      split_ifs with hkey
      · exact ⟨cold, rfl, hbeh.trans (hold current (hkey ▸ hcur))⟩
      · exact ⟨current, hcur, hbeh⟩
  · exact ⟨{ h with }, fun hok ↦ by cases hok⟩

/-- The write is taken into the hot tier, if the cold store takes it. -/
def Writable (store : TieredValueStore) (key : Key) (record : ReplicatedValueRecord) : Prop :=
  (store.cold.upsert key record).1 = .ok () →
    Promotable { store with cold := (store.cold.upsert key record).2 } key record

theorem Mirrors.upsert (h : Mirrors rows maxHotBytes store alone) (hrows : Identified rows)
    (hrec : (key, record) ∈ rows) :
    ((store.upsert key record).1 = (alone.upsert key record).1 ↔ store.Writable key record) ∧
      (store.Writable key record →
        Mirrors rows maxHotBytes (store.upsert key record).2 (alone.upsert key record).2) := by
  obtain ⟨hres, hsame⟩ := h.same.upsert key record
  obtain ⟨htiers, hcold⟩ := h.tiers.write hrec
  have hwrit : Mirrors rows maxHotBytes { store with cold := (store.cold.upsert ..).2 }
      (alone.upsert ..).2 := { h with tiers := htiers, same := hsame }
  rw [← hres, Writable, TieredValueStore.upsert]
  generalize store.cold.upsert key record = written at hcold hwrit ⊢
  obtain ⟨result, next⟩ := written
  cases result with
  | error => exact ⟨iff_of_true rfl nofun, fun _ ↦ hwrit⟩
  | ok =>
    obtain ⟨cold, hlook, hle⟩ := hcold rfl
    obtain ⟨hok, hmirr⟩ := hwrit.promoteHot hrows hrec hlook hle
    exact ⟨hok.trans ⟨fun hprom _ ↦ hprom, fun hprom ↦ hprom rfl⟩, fun hprom ↦ hmirr (hprom rfl)⟩

theorem Mirrors.remove (h : Mirrors rows maxHotBytes store alone) (key : Key) :
    Mirrors rows maxHotBytes (store.remove key) (alone.remove key) := by
  refine ⟨⟨fun found record hfound ↦ ?_, fun found record hfound ↦ ?_, fun found hot hfound ↦ ?_⟩,
    h.same.remove key, fun found hfound ↦ ?_, ?_, h.budget⟩
  · exact h.tiers.coldKnown found record (of_lookup_erase hfound).2
  · exact h.tiers.hotKnown found record (of_lookup_erase hfound).2
  · obtain ⟨hne, hold⟩ := of_lookup_erase hfound
    obtain ⟨cold, hlook, hle⟩ := h.tiers.behind found hot hold
    exact ⟨cold, (lookup_erase_ne hne).trans hlook, hle⟩
  · obtain ⟨hne, hmem⟩ := mem_erase.mp hfound
    exact mem_filter.mpr ⟨h.listed found hmem, decide_eq_true hne⟩
  · have htotal := total_eq_add_erase ReplicatedValueRecord.approxBytes store.hot key
    have hwithin := h.within
    unfold hotBytes at hwithin ⊢
    change total _ (store.hot.erase key) ≤ _
    omega

/-! ### Scans -/

/-- The rows of a store, put into a map again. -/
theorem lookup_rows (memory : InMemoryReplicatedValueStore) (key : Key) :
    (memory.scanAll.foldl (fun merged row ↦ merged.insert row.1 row.2)
        (∅ : KeyMap Key ReplicatedValueRecord)).lookup key = memory.records.lookup key := by
  have hkeys : (memory.scanAll.map Prod.fst).Nodup :=
    pairwise_map.mpr ((sorted_scanAll ..).imp fun hlt heq ↦ hlt.ne (congrArg utf8 heq))
  cases hfound : memory.records.lookup key with
  | none =>
    refine lookup_insertEach_of_notMem Prod.fst (fun row _ ↦ row.2) (fun hkey ↦ ?_) ∅
    obtain ⟨row, hrow, rfl⟩ := mem_map.mp hkey
    cases hfound.symm.trans (mem_scanAll_iff.mp hrow)
  | some record =>
    have hrow : (key, record) ∈ memory.scanAll := mem_scanAll_iff.mpr hfound
    exact lookup_insertEach_of_mem Prod.fst (fun row _ ↦ row.2) hkeys hrow ∅

theorem lookup_mergeHot (store : TieredValueStore) (listed : List (Key × ReplicatedValueRecord))
    (key : Key) :
    (store.mergeHot listed).lookup key =
      let cold := (listed.foldl (fun merged row ↦ merged.insert row.1 row.2)
        (∅ : KeyMap Key ReplicatedValueRecord)).lookup key
      (store.hot.lookup key).elim cold fun hot ↦ some (cold.elim hot (·.merge hot)) := by
  let value (entry : (_ : Key) × ReplicatedValueRecord) (cold : Option ReplicatedValueRecord) :=
    cold.elim entry.2 fun cold ↦ cold.merge entry.2
  cases hhot : store.hot.lookup key with
  | none =>
    refine lookup_insertEach_of_notMem Sigma.fst value (fun hkey ↦ ?_) _
    exact lookup_eq_none.mp hhot (mem_keys.mpr hkey)
  | some =>
    exact lookup_insertEach_of_mem Sigma.fst value store.hot.nodupKeys (mem_lookup_iff.mp hhot) _

theorem Mirrors.scanAll (h : Mirrors rows maxHotBytes store alone) (hrows : Identified rows) :
    store.scanAll = alone.scanAll := by
  have hmerge : ∀ key, (store.mergeHot store.cold.scanAll).lookup key =
      store.cold.records.lookup key := by
    intro key
    rw [lookup_mergeHot, lookup_rows]
    cases hhot : store.hot.lookup key with
    | none => rfl
    | some hot =>
      obtain ⟨cold, hcold, hle⟩ := h.tiers.behind key hot hhot
      rw [hcold]
      exact congrArg some
        (hrows.merge_eq (h.tiers.coldKnown key cold hcold) (h.tiers.hotKnown key hot hhot) hle).1
  have hsame :
    SameRecords { records := store.mergeHot .., maxTotalBytes := store.cold.maxTotalBytes }
      store.cold := ⟨hmerge, rfl⟩
  exact hsame.scanAll.trans h.same.scanAll

/-- Assumes: a map without a node to read from. The scan returns the hot tier. -/
theorem scanOwned_nil_iff : store.scanOwned [] = [] ↔ isEmpty store.hot = true := by
  have hlook : ∀ key, (store.mergeHot []).lookup key = store.hot.lookup key := by
    intro key
    rw [lookup_mergeHot]
    cases store.hot.lookup key with
    | none | some => rfl
  constructor
  · intro hnil
    refine isEmpty_of_lookup fun key ↦ ?_
    cases hhot : store.hot.lookup key with
    | none => rfl
    | some hot =>
      have hrow : (key, hot) ∈ store.scanOwned [] := mem_scanAll_iff.mpr ((hlook key).trans hhot)
      simp [hnil] at hrow
  · intro hempty
    refine eq_nil_iff_forall_not_mem.mpr fun row hrow ↦ ?_
    have hhot := (hlook row.1).symm.trans (mem_scanAll_iff.mp hrow)
    cases (lookup_eq_none_of_isEmpty hempty row.1).symm.trans hhot

/-! ### The store and its cold store alone -/

/-- The request is answered as by the cold store alone: what has to leave the hot tier fits the cold
store, and a scan that owns no partition finds the hot tier empty. -/
def Transparent (store : TieredValueStore) : TieredRequest → Prop
  | .upsert key record => store.Writable key record
  | .tombstone key partition version epoch =>
    store.Writable key (.tombstone partition version epoch none)
  | .getPromote key => ∀ record ∈ store.get key, store.Promotable key record
  | .scanOwned reading => reading ≠ [] ∨ isEmpty store.hot = true
  | _ => True

theorem map_eq_map_iff {α β ε : Type} {f : α → β} (hf : Function.Injective f) {x y : Except ε α} :
    x.map f = y.map f ↔ x = y := by
  cases x with
  | error => cases y <;> simp [Except.map]
  | ok => cases y <;> simp [Except.map, hf.eq_iff]

/-- The replies are those of the cold store alone exactly where the request is transparent, and then
the store stands for it afterwards. -/
theorem Mirrors.answer (h : Mirrors rows maxHotBytes store alone) (hrows : Identified rows)
    {request : TieredRequest} (hwrit : ∀ row ∈ request.written, row ∈ rows) :
    ((store.answer request).1 = (alone.answer request.toCold).1 ↔ store.Transparent request) ∧
      (store.Transparent request →
        Mirrors rows maxHotBytes (store.answer request).2 (alone.answer request.toCold).2) := by
  have hdone : Function.Injective fun _ : Unit ↦ StoreReply.done := fun _ _ _ ↦ rfl
  cases request with
  | upsert key record =>
    obtain ⟨hreply, hmirr⟩ := h.upsert hrows (hwrit (key, record) rfl)
    exact ⟨(map_eq_map_iff hdone).trans hreply, hmirr⟩
  | tombstone key partition version epoch =>
    obtain ⟨hreply, hmirr⟩ :=
      h.upsert hrows (hwrit (key, .tombstone partition version epoch none) rfl)
    exact ⟨(map_eq_map_iff hdone).trans hreply, hmirr⟩
  | get key =>
    refine ⟨iff_of_true ?_ trivial, fun _ ↦ h⟩
    exact congrArg (fun found ↦ Except.ok (StoreReply.record found)) (h.get hrows key)
  | getPromote key =>
    obtain ⟨hreply, hmirr⟩ := h.getPromote hrows key
    have hrec : Function.Injective StoreReply.record := fun _ _ h ↦ StoreReply.record.inj h
    exact ⟨Iff.trans (map_eq_map_iff (y := .ok (alone.get key)) hrec) hreply, hmirr⟩
  | remove key => exact ⟨iff_of_true rfl trivial, fun _ ↦ h.remove key⟩
  | scanOwned reading =>
    refine ⟨?_, fun _ ↦ h⟩
    change Except.ok (StoreReply.records (store.scanOwned reading)) =
      Except.ok (StoreReply.records (alone.scanOwned ..)) ↔ _
    rw [Except.ok.injEq, StoreReply.records.injEq]
    cases reading with
    | nil => exact scanOwned_nil_iff.trans ⟨Or.inr, fun htrans ↦ htrans.resolve_left (· rfl)⟩
    | cons node reading => exact iff_of_true (h.scanAll hrows) (.inl (cons_ne_nil node reading))
  | scanAll =>
    refine ⟨iff_of_true ?_ trivial, fun _ ↦ h⟩
    exact congrArg (fun rows ↦ Except.ok (StoreReply.records rows)) (h.scanAll hrows)

/-- The rows that a cold store holds or requests write. -/
def writtenRows (cold : InMemoryReplicatedValueStore) (requests : List TieredRequest) :
    Set (Key × ReplicatedValueRecord) :=
  {row | cold.records.lookup row.1 = some row.2 ∨ ∃ request ∈ requests, request.written = some row}

theorem mirrors_new (cold : InMemoryReplicatedValueStore) (maxHotBytes : ℕ)
    (hrows : ∀ key record, cold.records.lookup key = some record → (key, record) ∈ rows) :
    Mirrors rows (max maxHotBytes 1) (new cold maxHotBytes) cold where
  tiers := ⟨hrows, (fun _ _ h ↦ by cases h), (fun _ _ h ↦ by cases h)⟩
  same := .refl cold
  listed _ h := by cases h
  within := Nat.zero_le _
  budget := rfl

/-- Assumes: records of one key with the same (version, epoch), in the cold store or written, are
the same. A tiered store gives the replies of its cold store used alone and stays within its hot
budget exactly along transparent requests. -/
theorem tiered_agrees_iff (cold : InMemoryReplicatedValueStore) (maxHotBytes : ℕ)
    (requests : List TieredRequest) (hrows : Identified (writtenRows cold requests)) :
    Agrees answer answerAlone (fun store ↦ store.hotBytes ≤ max maxHotBytes 1)
      (new cold maxHotBytes) cold requests ↔
      Along (fun store request ↦ some (store.answer request).2) Transparent (new cold maxHotBytes)
        requests := by
  refine agrees_iff_along (R := Mirrors (writtenRows cold requests) (max maxHotBytes 1))
    (K := fun request ↦ ∀ row ∈ request.written, row ∈ writtenRows cold requests) ?_ ?_
    (mirrors_new cold maxHotBytes fun key record h ↦ .inl h)
    (fun request hreq row hrow ↦ .inr ⟨request, hreq, hrow⟩)
  · intro store alone request h hwrit
    obtain ⟨hreply, hmirr⟩ := h.answer hrows hwrit
    exact ⟨fun hagrees ↦ hreply.mp hagrees.1,
      fun htrans ↦ ⟨hreply.mpr htrans, (hmirr htrans).within⟩⟩
  · intro store alone request h hwrit htrans
    exact (h.answer hrows hwrit).2 htrans

/-- Assumes: an empty cold store. Records that agree among the writes are identified. -/
theorem identified_writtenRows (budget : ℕ) {requests : List TieredRequest}
    (h : ∀ first ∈ requests.filterMap (·.written), ∀ second ∈ requests.filterMap (·.written),
      first.1 = second.1 → first.2.order = second.2.order → first.2 = second.2) :
    Identified (writtenRows (.withBudget budget) requests) := by
  have hmem : ∀ row ∈ writtenRows (.withBudget budget) requests,
      row ∈ requests.filterMap (·.written) := by
    rintro row (hcold | ⟨request, hreq, hrow⟩)
    · cases hcold
    · exact mem_filterMap.mpr ⟨request, hreq, hrow⟩
  intro key first second hfirst hsnd
  exact h (key, first) (hmem _ hfirst) (key, second) (hmem _ hsnd) rfl

instance (store : TieredValueStore) (order : List Key) : Decidable (store.Demotable order) :=
  inferInstanceAs (Decidable (∀ key ∈ _, ∀ record ∈ _, _ = true))

instance (store : TieredValueStore) (key : Key) (record : ReplicatedValueRecord) :
    Decidable (store.Promotable key record) :=
  inferInstanceAs (Decidable (_ ≤ _ → Demotable _ _))

instance (store : TieredValueStore) (key : Key) (record : ReplicatedValueRecord) :
    Decidable (store.Writable key record) :=
  inferInstanceAs (Decidable (_ = _ → Promotable _ _ _))

instance (store : TieredValueStore) : DecidablePred store.Transparent
  | .upsert .. | .tombstone .. => inferInstanceAs (Decidable (Writable _ _ _))
  | .getPromote _ => inferInstanceAs (Decidable (∀ record ∈ _, Promotable _ _ record))
  | .scanOwned _ => inferInstanceAs (Decidable (_ ≠ _ ∨ _ = _))
  | .get _ | .remove _ | .scanAll => .isTrue trivial

/-- A record leaves the hot tier for a larger one and is read back into it. -/
def transparentRequests : List TieredRequest :=
  [.upsert "a" (.value 0 1 1 [1]), .upsert "b" (.value 0 1 1 [1, 2, 3]), .getPromote "a",
    .tombstone "b" 0 2 1, .scanOwned ["node-a"], .remove "a", .scanAll]

theorem tiered_agrees_transparentRequests :
    Agrees answer answerAlone (fun store ↦ store.hotBytes ≤ 3)
      (new (.withBudget 5) 3) (.withBudget 5) transparentRequests :=
  (tiered_agrees_iff (.withBudget 5) 3 transparentRequests
    (identified_writtenRows 5 (by decide +kernel))).mpr (by decide +kernel)

/-- An older record of `a` goes to the hot tier, and no longer fits the cold store when `b` is to
take its place. -/
def staleRequests : List TieredRequest :=
  [.upsert "a" (.value 0 2 1 [1]), .upsert "b" (.value 0 1 1 [1, 2, 3]),
    .upsert "a" (.value 0 1 1 [1, 1]), .upsert "c" (.value 0 1 1 [1]), .getPromote "b"]

/-- A scan that owns no partition returns a record, and a read fails. -/
theorem tiered_disagrees :
    (Identified (writtenRows (.withBudget 5) [.upsert "a" (.value 0 1 1 [1]), .scanOwned []]) ∧
      ¬ Agrees answer answerAlone (fun store ↦ store.hotBytes ≤ 3)
        (new (.withBudget 5) 3) (.withBudget 5) [.upsert "a" (.value 0 1 1 [1]), .scanOwned []]) ∧
    (Identified (writtenRows (.withBudget 5) staleRequests) ∧
      (trace answer (new (.withBudget 5) 3) staleRequests).1 =
        [.ok .done, .ok .done, .ok .done, .ok .done,
          .error ⟨"replicated value store total byte budget exceeded"⟩] ∧
      (trace answerAlone (.withBudget 5) staleRequests).1 =
        [.ok .done, .ok .done, .ok .done, .ok .done,
          .ok (.record (some (.value 0 1 1 [1, 2, 3])))]) := by
  refine ⟨⟨identified_writtenRows 5 ?_, ?_⟩, identified_writtenRows 5 ?_, ?_, ?_⟩
  all_goals decide +kernel

end TieredValueStore

end HydraCache.Grid
