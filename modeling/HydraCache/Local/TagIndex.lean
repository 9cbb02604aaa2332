import HydraCache.Lib.EpochClock
import HydraCache.Lib.KeyMap
import HydraCache.Lib.Word

/-!
# The tag index and its generations

The tag index lists, for every tag, the keys stored under it with the version of the entry that was
listed, and it counts invalidations: one generation per tag, one per key, and a global one. A load
takes a `snapshot` of the generations it depends on before it calls its loader, and its value is
stored only if the snapshot `isCurrent` when the loader has returned.

Generations are kept for at most `maxGenerationTombstones` tags and keys. A tag or key beyond that
rotates the epoch: both maps are emptied and the global generation advances, so that forgetting
generations never makes an old snapshot look current. In terms of epoch clocks the generations are
one `EpochClock` over keys and tags (`TagIndex.clock`), a rotation is `EpochClock.rotate` and an
invalidation is a rotation, if one is due, followed by `EpochClock.bump`.

* `snapshot_fencing`: below 2^64 generation bumps, a snapshot is current only if nothing it
  depends on was invalidated since it was taken, a snapshot that is not current never becomes
  current again, and both generation maps stay at or below their cap.
* `listing_register`, `listing_unregister`, `listing_unregisterIfVersion`, `listing_takeTag`: what
  each operation does to the listing of a key under a tag.
-/

set_option autoImplicit false

namespace HydraCache.Local

open Lib EpochClock KeyMap AList

abbrev Key := String

abbrev Tag := String

/-- `MAX_GENERATION_TOMBSTONES`. -/
def maxGenerationTombstones : ℕ := 4096

/-- The generations a load depends on, as they were before its loader was called. -/
structure LoadGenerationSnapshot where
  global : ℕ
  key : Key
  keyGeneration : ℕ
  tags : List (Tag × ℕ)
deriving DecidableEq

/-- The keys listed under each tag, with the version listed, and the generation counters. -/
structure TagIndex where
  keysByTag : KeyMap Tag (KeyMap Key ℕ) := ∅
  generations : KeyMap Tag ℕ := ∅
  keyGenerations : KeyMap Key ℕ := ∅
  globalGeneration : ℕ := 0

namespace TagIndex

/-! ### The operations of the source -/

section

variable (index : TagIndex)

/-- The generation of a tag; an absent one counts as zero. -/
def tagGeneration (tag : Tag) : ℕ := (index.generations.lookup tag).getD 0

section

variable (key : Key)

/-- The generation of a key; an absent one counts as zero. -/
def keyGeneration : ℕ := (index.keyGenerations.lookup key).getD 0

/-- The version under which `key` is listed for `tag`, if it is. -/
def listing (tag : Tag) (key : Key) : Option ℕ :=
  (index.keysByTag.lookup tag).bind fun keys ↦ keys.lookup key

/-- List `key` under one tag. -/
def registerTag (version : ℕ) (index : TagIndex) (tag : Tag) : TagIndex :=
  let keys := (index.keysByTag.lookup tag).getD ∅
  { index with keysByTag := index.keysByTag.insert tag (keys.insert key version) }

/-- List `key` under every one of `tags`, over whatever was listed there. -/
def register (tags : List Tag) (version : ℕ) : TagIndex :=
  tags.foldl (registerTag key version) index

/-- Put the keys of a tag back, or drop the tag when none is left. -/
def setKeys (tag : Tag) (keys : KeyMap Key ℕ) : TagIndex :=
  if keys.isEmpty then { index with keysByTag := index.keysByTag.erase tag }
  else { index with keysByTag := index.keysByTag.insert tag keys }

/-- Drop `key` from one tag. -/
def unregisterTag (index : TagIndex) (tag : Tag) : TagIndex :=
  match index.keysByTag.lookup tag with
  | none => index
  | some keys => index.setKeys tag (keys.erase key)

/-- Drop `key` from every one of `tags`, whatever version is listed. -/
def unregister (tags : List Tag) : TagIndex :=
  tags.foldl (unregisterTag key) index

/-- Drop `key` from one tag if it is listed with `version`. -/
def unregisterTagIfVersion (version : ℕ) (index : TagIndex) (tag : Tag) : TagIndex :=
  match index.keysByTag.lookup tag with
  | none => index
  | some keys => index.setKeys tag (if keys.lookup key = some version then keys.erase key else keys)

/-- Drop `key` from those of `tags` that list it with `version`. -/
def unregisterIfVersion (tags : List Tag) (version : ℕ) : TagIndex :=
  tags.foldl (unregisterTagIfVersion key version) index

/-- Forget all tag and key generations and open a new epoch. -/
def rotateGenerationEpoch : TagIndex :=
  { index with
    generations := ∅
    keyGenerations := ∅
    globalGeneration := wrappingSucc index.globalGeneration }

/-- Rotate when `tombstones`, which does not hold `name` yet, is at its cap. -/
def rotateIfFull (tombstones : KeyMap String ℕ) (name : String) : TagIndex :=
  if name ∉ tombstones ∧ maxGenerationTombstones ≤ tombstones.size then
    index.rotateGenerationEpoch
  else index

/-- Advance the generation of `tag` and take the keys listed under it. -/
def takeTag (tag : Tag) : List Key × TagIndex :=
  let rotated := index.rotateIfFull index.generations tag
  (((rotated.keysByTag.lookup tag).map AList.keys).getD [],
    { rotated with
      generations := rotated.generations.insert tag (wrappingSucc (rotated.tagGeneration tag))
      keysByTag := rotated.keysByTag.erase tag })

/-- Advance the generation of `key`. -/
def advanceKey : TagIndex :=
  let rotated := index.rotateIfFull index.keyGenerations key
  { rotated with
    keyGenerations := rotated.keyGenerations.insert key (wrappingSucc (rotated.keyGeneration key)) }

/-- Drop all listings and generations and open a new epoch. -/
def clear : TagIndex :=
  { keysByTag := ∅
    generations := ∅
    keyGenerations := ∅
    globalGeneration := wrappingSucc index.globalGeneration }

/-- Rebuild all listings from the given entries. -/
def reconcileMemberships (entries : List (Key × ℕ × List Tag)) : TagIndex :=
  entries.foldl (fun index entry ↦ index.register entry.1 entry.2.2 entry.2.1)
    { index with keysByTag := ∅ }

def snapshot (tags : List Tag) : LoadGenerationSnapshot where
  global := index.globalGeneration
  key := key
  keyGeneration := index.keyGeneration key
  tags := tags.map fun tag ↦ (tag, index.tagGeneration tag)

def isCurrent (snapshot : LoadGenerationSnapshot) : Bool :=
  index.globalGeneration == snapshot.global &&
    index.keyGeneration snapshot.key == snapshot.keyGeneration &&
    snapshot.tags.all fun tag ↦ index.tagGeneration tag.1 == tag.2

/-! ### What the operations do to the listings -/

theorem listing_registerTag (version : ℕ) (tag other : Tag) (name : Key) :
    (registerTag key version index tag).listing other name =
      if name = key ∧ other = tag then some version else index.listing other name := by
  simp only [listing, registerTag, lookup_insert_apply]
  by_cases htag : other = tag
  · subst htag
    by_cases hkey : name = key
    · simp [hkey, lookup_insert_apply]
    · cases index.keysByTag.lookup other with
      | none => simp [hkey, lookup_insert_ne hkey, -insert_empty]
      | some => simp [hkey, lookup_insert_ne hkey]
  · simp [htag]

end

section

variable (key : Key) (tags : List Tag) (version : ℕ) (tag : Tag) (name : Key)

theorem listing_register : (index.register key tags version).listing tag name =
      if name = key ∧ tag ∈ tags then some version else index.listing tag name := by
  induction tags generalizing index with
  | nil => simp [register]
  | cons first rest ih =>
    have hstep := ih (registerTag key version index first)
    simp only [register, List.foldl_cons] at hstep ⊢
    rw [hstep, listing_registerTag]
    by_cases hkey : name = key <;> by_cases hrest : tag ∈ rest <;>
      by_cases hfirst : tag = first <;> simp [hkey, hrest, hfirst]

theorem listing_setKeys (keys : KeyMap Key ℕ) (other : Tag) (name : Key) :
    (index.setKeys tag keys).listing other name =
      if other = tag then keys.lookup name else index.listing other name := by
  unfold setKeys
  by_cases hempty : keys.isEmpty = true <;> rcases eq_or_ne other tag with rfl | htag <;>
    simp [listing, lookup_eq_none_of_isEmpty, lookup_erase_ne, lookup_insert_ne, *]

theorem listing_unregisterTag (other : Tag) (name : Key) :
    (unregisterTag key index tag).listing other name =
      if name = key ∧ other = tag then none else index.listing other name := by
  unfold unregisterTag
  cases h : index.keysByTag.lookup tag with
  | none =>
    by_cases htag : other = tag
    · subst htag
      simp [listing, h]
    · simp [htag]
  | some =>
    rw [listing_setKeys, lookup_erase_apply]
    by_cases htag : other = tag
    · subst htag
      by_cases hkey : name = key <;> simp [listing, h, hkey]
    · simp [htag]

theorem listing_unregister : (index.unregister key tags).listing tag name =
      if name = key ∧ tag ∈ tags then none else index.listing tag name := by
  induction tags generalizing index with
  | nil => simp [unregister]
  | cons first rest ih =>
    have hstep := ih (unregisterTag key index first)
    simp only [unregister, List.foldl_cons] at hstep ⊢
    rw [hstep, listing_unregisterTag]
    by_cases hkey : name = key <;> by_cases hrest : tag ∈ rest <;>
      by_cases hfirst : tag = first <;> simp [hkey, hrest, hfirst]

theorem listing_unregisterTagIfVersion (other : Tag) (name : Key) :
    (unregisterTagIfVersion key version index tag).listing other name =
      if name = key ∧ other = tag ∧ index.listing other name = some version then none
      else index.listing other name := by
  unfold unregisterTagIfVersion
  cases h : index.keysByTag.lookup tag with
  | none =>
    by_cases htag : other = tag
    · subst htag
      simp [listing, h]
    · simp [htag]
  | some keys =>
    rw [listing_setKeys]
    by_cases htag : other = tag
    · subst htag
      by_cases hver : keys.lookup key = some version <;>
        rcases eq_or_ne name key with rfl | hkey <;>
        simp [listing, lookup_erase_ne, *]
    · simp [htag]

theorem listing_unregisterIfVersion :
    (index.unregisterIfVersion key tags version).listing tag name =
      if name = key ∧ tag ∈ tags ∧ index.listing tag name = some version then none
      else index.listing tag name := by
  induction tags generalizing index with
  | nil => simp [unregisterIfVersion]
  | cons first rest ih =>
    have hstep := ih (unregisterTagIfVersion key version index first)
    simp only [unregisterIfVersion, List.foldl_cons] at hstep ⊢
    rw [hstep, listing_unregisterTagIfVersion]
    by_cases hkey : name = key <;> by_cases hrest : tag ∈ rest <;>
      by_cases hfirst : tag = first <;>
        by_cases hver : index.listing tag name = some version <;>
          simp_all

@[simp] theorem listing_rotateIfFull (tombstones : KeyMap String ℕ)
    (name : String) : (index.rotateIfFull tombstones name).listing = index.listing := by
  unfold rotateIfFull
  split_ifs <;> rfl

@[simp] theorem listing_advanceKey : (index.advanceKey key).listing = index.listing := by
  rw [← listing_rotateIfFull index index.keyGenerations key]
  rfl

theorem listing_takeTag (other : Tag) (key : Key) : (index.takeTag tag).2.listing other key =
      if other = tag then none else index.listing other key := by
  rw [← listing_rotateIfFull index index.generations tag]
  simp only [listing, takeTag, lookup_erase_apply]
  split_ifs <;> rfl

end

theorem mem_takeTag {index : TagIndex} {tag : Tag} {key : Key} :
    key ∈ (index.takeTag tag).1 ↔ (index.listing tag key).isSome := by
  rw [← listing_rotateIfFull]
  simp only [takeTag, listing]
  cases (index.rotateIfFull index.generations tag).keysByTag.lookup tag with
  | none => simp
  | some => simp [lookup_isSome, mem_keys]

/-! ### The generations as an epoch clock -/

/-- The generations of an index, as one clock over keys and tags. -/
def clock : EpochClock (Key ⊕ Tag) where
  epoch := index.globalGeneration
  count := Sum.elim index.keyGeneration index.tagGeneration

/-- The key and the tags a snapshot depends on. -/
def dependencies (key : Key) (tags : List Tag) : Set (Key ⊕ Tag) :=
  {resource | resource = .inl key ∨ ∃ tag ∈ tags, resource = .inr tag}

/-- No generation is at its top, so that none wraps when it is advanced next. -/
def HasRoom : Prop := index.clock.BoundedBy (wordSize - 2)

theorem isCurrent_snapshot_iff (taken : TagIndex) (key : Key) (tags : List Tag) :
    index.isCurrent (taken.snapshot key tags) = true ↔
      taken.clock.AgreeOn index.clock (dependencies key tags) := by
  simp only [isCurrent, snapshot, List.all_map, Bool.and_eq_true, beq_iff_eq, List.all_eq_true,
    Function.comp_apply]
  constructor
  · rintro ⟨⟨hglobal, hkey⟩, htags⟩
    refine ⟨hglobal.symm, ?_⟩
    rintro resource (rfl | ⟨tag, htag, rfl⟩)
    · exact hkey.symm
    · exact (htags tag htag).symm
  · rintro ⟨hglobal, hcount⟩
    refine ⟨⟨hglobal.symm, (hcount (.inl key) (.inl rfl)).symm⟩, fun tag htag ↦ ?_⟩
    exact (hcount (.inr tag) (.inr ⟨tag, htag, rfl⟩)).symm

/-- The part of the index that counts generations. -/
def generationState : KeyMap Tag ℕ × KeyMap Key ℕ × ℕ :=
  (index.generations, index.keyGenerations, index.globalGeneration)

theorem clock_eq_of_generationState_eq {index other : TagIndex}
    (h : index.generationState = other.generationState) : index.clock = other.clock := by
  simp only [generationState, Prod.mk.injEq] at h
  obtain ⟨htags, hkeys, hglobal⟩ := h
  unfold clock keyGeneration tagGeneration
  rw [htags, hkeys, hglobal]

theorem generationState_foldl {α : Type*} {f : TagIndex → α → TagIndex}
    (hf : ∀ index item, (f index item).generationState = index.generationState)
    (items : List α) (index : TagIndex) :
    (items.foldl f index).generationState = index.generationState := by
  induction items generalizing index with
  | nil => rfl
  | cons _ _ ih => rw [List.foldl_cons, ih, hf]

theorem generationState_setKeys (tag : Tag) (keys : KeyMap Key ℕ) :
    (index.setKeys tag keys).generationState = index.generationState := by
  unfold setKeys
  split_ifs <;> rfl

section

variable (key : Key) (tags : List Tag) (version : ℕ)

theorem generationState_register :
    (index.register key tags version).generationState = index.generationState :=
  generationState_foldl (f := registerTag key version) (fun _ _ ↦ rfl) tags index

theorem generationState_unregister :
    (index.unregister key tags).generationState = index.generationState := by
  refine generationState_foldl (fun index tag ↦ ?_) tags index
  unfold unregisterTag
  split
  · rfl
  · exact generationState_setKeys index tag _

theorem generationState_unregisterIfVersion :
    (index.unregisterIfVersion key tags version).generationState = index.generationState := by
  refine generationState_foldl (fun index tag ↦ ?_) tags index
  unfold unregisterTagIfVersion
  split
  · rfl
  · exact generationState_setKeys index tag _

end

theorem generationState_reconcileMemberships (entries : List (Key × ℕ × List Tag)) :
    (index.reconcileMemberships entries).generationState = index.generationState := by
  rw [reconcileMemberships,
    generationState_foldl fun index entry ↦ index.generationState_register _ _ _]
  rfl

section

variable {index : TagIndex} (hroom : index.HasRoom)
include hroom

theorem clock_rotateGenerationEpoch : index.rotateGenerationEpoch.clock = index.clock.rotate := by
  have hwrap : wrappingSucc index.globalGeneration = index.globalGeneration + 1 :=
    wrappingSucc_of_le hroom.1
  simp only [clock, rotateGenerationEpoch, rotate, hwrap]
  congr 1
  funext resource
  cases resource <;> rfl

theorem clock_clear : index.clear.clock = index.clock.rotate := clock_rotateGenerationEpoch hroom

theorem clock_rotateIfFull (tombstones : KeyMap String ℕ) (name : String) :
    (index.rotateIfFull tombstones name).clock = index.clock ∨
      (index.rotateIfFull tombstones name).clock = index.clock.rotate := by
  unfold rotateIfFull
  split_ifs
  · exact .inr (clock_rotateGenerationEpoch hroom)
  · exact .inl rfl

theorem clock_le_rotateIfFull (tombstones : KeyMap String ℕ) (name : String) :
    index.clock ≤ (index.rotateIfFull tombstones name).clock := by
  rcases clock_rotateIfFull hroom tombstones name with h | h
  · exact h ▸ le_refl _
  · exact h ▸ index.clock.le_rotate

end

/-- A rotation leaves every counter where it was or at zero. -/
theorem count_rotateIfFull_le (tombstones : KeyMap String ℕ) (name : String)
    (resource : Key ⊕ Tag) :
    (index.rotateIfFull tombstones name).clock.count resource ≤ index.clock.count resource := by
  unfold rotateIfFull
  split_ifs
  · cases resource <;> exact Nat.zero_le _
  · exact le_refl _

end

theorem clock_takeTag {index : TagIndex} (hroom : index.HasRoom) (tag : Tag) :
    (index.takeTag tag).2.clock =
      (index.rotateIfFull index.generations tag).clock.bump (.inr tag) := by
  have hcount : (index.rotateIfFull index.generations tag).tagGeneration tag ≤ wordSize - 2 :=
    (count_rotateIfFull_le index index.generations tag (.inr tag)).trans (hroom.2 (.inr tag))
  have hwrap := wrappingSucc_of_le hcount
  simp only [clock, takeTag, bump, hwrap]
  congr 1
  funext resource
  cases resource with
  | inl => rfl
  | inr other => by_cases h : other = tag <;> simp [tagGeneration, h, lookup_insert_ne]

theorem clock_advanceKey {index : TagIndex} (hroom : index.HasRoom) (key : Key) :
    (index.advanceKey key).clock =
      (index.rotateIfFull index.keyGenerations key).clock.bump (.inl key) := by
  have hcount : (index.rotateIfFull index.keyGenerations key).keyGeneration key ≤ wordSize - 2 :=
    (count_rotateIfFull_le index index.keyGenerations key (.inl key)).trans (hroom.2 (.inl key))
  have hwrap := wrappingSucc_of_le hcount
  simp only [clock, advanceKey, bump, hwrap]
  congr 1
  funext resource
  cases resource with
  | inl other => by_cases h : other = key <;> simp [keyGeneration, h, lookup_insert_ne]
  | inr => rfl

end TagIndex

open TagIndex

/-! ### Runs of the index -/

/-- An operation on the index. -/
inductive IndexOp where
  | register (key : Key) (tags : List Tag) (version : ℕ)
  | unregister (key : Key) (tags : List Tag)
  | unregisterIfVersion (key : Key) (tags : List Tag) (version : ℕ)
  | takeTag (tag : Tag)
  | advanceKey (key : Key)
  | clear
  | reconcileMemberships (entries : List (Key × ℕ × List Tag))

namespace IndexOp

/-- The index after an operation. -/
def apply (index : TagIndex) : IndexOp → TagIndex
  | register key tags version => index.register key tags version
  | unregister key tags => index.unregister key tags
  | unregisterIfVersion key tags version => index.unregisterIfVersion key tags version
  | takeTag tag => (index.takeTag tag).2
  | advanceKey key => index.advanceKey key
  | clear => index.clear
  | reconcileMemberships entries => index.reconcileMemberships entries

/-- The operation advances a generation. -/
def bumps : IndexOp → Bool
  | takeTag _ | advanceKey _ | clear => true
  | _ => false

/-- The operation invalidates what the snapshot depends on: its key, one of its tags, or all. -/
def Invalidates (snapshot : LoadGenerationSnapshot) : IndexOp → Prop
  | takeTag tag => tag ∈ snapshot.tags.map Prod.fst
  | advanceKey key => key = snapshot.key
  | clear => True
  | _ => False

/-- The index after a list of operations. -/
def applyAll (index : TagIndex) (ops : List IndexOp) : TagIndex := ops.foldl apply index

/-- How many of the operations advance a generation. -/
def bumpCount (ops : List IndexOp) : ℕ := ops.countP bumps

variable {op : IndexOp} {index : TagIndex}

theorem generationState_apply_of_not_bumps (index : TagIndex)
    (h : op.bumps = false) : (apply index op).generationState = index.generationState := by
  cases op with
  | register key tags version => exact index.generationState_register key tags version
  | unregister key tags => exact index.generationState_unregister key tags
  | unregisterIfVersion key tags version =>
    exact index.generationState_unregisterIfVersion key tags version
  | reconcileMemberships entries => exact index.generationState_reconcileMemberships entries
  | takeTag | advanceKey | clear => cases h

theorem clock_apply_of_not_bumps (index : TagIndex) (h : op.bumps = false) :
    (apply index op).clock = index.clock :=
  clock_eq_of_generationState_eq (generationState_apply_of_not_bumps index h)

/-- Assumes: no generation about to wrap. Every operation moves the clock up. -/
theorem clock_le_apply
    (hbumps : op.bumps = true → index.HasRoom) : index.clock ≤ (apply index op).clock := by
  cases hbump : op.bumps with
  | false => rw [clock_apply_of_not_bumps index hbump]
  | true =>
    have hroom : index.HasRoom := hbumps hbump
    cases op with
    | takeTag =>
      rw [apply, clock_takeTag hroom]
      exact (clock_le_rotateIfFull hroom _ _).trans (le_bump _ _)
    | advanceKey =>
      rw [apply, clock_advanceKey hroom]
      exact (clock_le_rotateIfFull hroom _ _).trans (le_bump _ _)
    | clear =>
      rw [apply, clock_clear hroom]
      exact le_rotate _
    | register | unregister | unregisterIfVersion | reconcileMemberships => cases hbump

/-- Assumes: the clock of the snapshot at or before `index`, and `final` at or after the operation.
If the operation invalidates the snapshot, the two disagree on what the snapshot depends on. -/
theorem not_agreeOn_of_invalidates {taken : TagIndex} {final : EpochClock (Key ⊕ Tag)} {key : Key}
    {tags : List Tag} (hroom : index.HasRoom) (hinv : op.Invalidates (taken.snapshot key tags))
    (htaken : taken.clock ≤ index.clock) (hfinal : (apply index op).clock ≤ final) :
    ¬ taken.clock.AgreeOn final (dependencies key tags) := by
  cases op with
  | takeTag tag =>
    rw [apply, clock_takeTag hroom] at hfinal
    have htag : tag ∈ tags := by
      simpa [Invalidates, snapshot, Function.comp_def] using hinv
    exact not_agreeOn_of_bump (.inr ⟨tag, htag, rfl⟩)
      (htaken.trans (clock_le_rotateIfFull hroom _ _)) hfinal
  | advanceKey other =>
    rw [apply, clock_advanceKey hroom] at hfinal
    have hkey : other = key := hinv
    exact not_agreeOn_of_bump (.inl (congrArg Sum.inl hkey))
      (htaken.trans (clock_le_rotateIfFull hroom _ _)) hfinal
  | clear =>
    rw [apply, clock_clear hroom] at hfinal
    exact not_agreeOn_of_rotate _ htaken hfinal
  | register | unregister | unregisterIfVersion | reconcileMemberships => cases hinv

/-- Assumes: counters at most `n`, below the top. One operation raises them by at most the one bump
it may make. -/
theorem boundedBy_apply {n : ℕ} (op : IndexOp) (hbound : index.clock.BoundedBy n)
    (hn : op.bumps = true → n ≤ wordSize - 2) :
    (apply index op).clock.BoundedBy (n + bumpCount [op]) := by
  cases hbump : op.bumps with
  | false =>
    rw [clock_apply_of_not_bumps index hbump]
    exact hbound.mono (Nat.le_add_right _ _)
  | true =>
    have hroom : index.HasRoom := hbound.mono (hn hbump)
    have hrot (tombstones : KeyMap String ℕ) (name : String) :
        (index.rotateIfFull tombstones name).clock.epoch ≤ n + 1 := by
      rcases clock_rotateIfFull hroom tombstones name with h | h <;> rw [h]
      · exact Nat.le_succ_of_le hbound.1
      · exact Nat.succ_le_succ hbound.1
    have hcount (tombstones : KeyMap String ℕ) (name : String) (resource : Key ⊕ Tag) :
        (index.rotateIfFull tombstones name).clock.count resource ≤ n :=
      (count_rotateIfFull_le index tombstones name resource).trans (hbound.2 resource)
    cases op with
    | takeTag =>
      rw [apply, clock_takeTag hroom]
      exact boundedBy_bump (hrot _ _) (hcount _ _) _
    | advanceKey =>
      rw [apply, clock_advanceKey hroom]
      exact boundedBy_bump (hrot _ _) (hcount _ _) _
    | clear =>
      rw [apply, clock_clear hroom]
      exact hbound.rotate
    | register | unregister | unregisterIfVersion | reconcileMemberships => cases hbump

theorem bumpCount_cons (op : IndexOp) (ops : List IndexOp) :
    bumpCount (op :: ops) = bumpCount [op] + bumpCount ops := by
  simp only [bumpCount, List.countP_cons, List.countP_nil]
  omega

theorem bumpCount_append (first second : List IndexOp) :
    bumpCount (first ++ second) = bumpCount first + bumpCount second :=
  List.countP_append

theorem applyAll_append (index : TagIndex) (first second : List IndexOp) :
    applyAll index (first ++ second) = applyAll (applyAll index first) second :=
  List.foldl_append

/-- Assumes: counters at most `n`, and fewer than 2^64 bumps with those still to come. The run moves
the clock up, and no counter passes the number of bumps made. -/
theorem clock_applyAll {n : ℕ} (ops : List IndexOp)
    (hbound : index.clock.BoundedBy n) (hn : n + bumpCount ops < wordSize) :
    index.clock ≤ (applyAll index ops).clock ∧
      (applyAll index ops).clock.BoundedBy (n + bumpCount ops) := by
  induction ops generalizing index n with
  | nil => exact ⟨le_refl _, hbound⟩
  | cons op _ ih =>
    rw [bumpCount_cons] at hn ⊢
    have hroom : op.bumps = true → n ≤ wordSize - 2 := by
      intro hbump
      have hone : bumpCount [op] = 1 := by simp [bumpCount, hbump]
      omega
    obtain ⟨hle, hbounded⟩ := ih (boundedBy_apply op hbound hroom) (by omega)
    rw [← Nat.add_assoc]
    exact ⟨(clock_le_apply fun hbump ↦ hbound.mono (hroom hbump)).trans hle, hbounded⟩

/-- Both generation maps are at or below their cap. -/
def Capped (index : TagIndex) : Prop :=
  index.generations.size ≤ maxGenerationTombstones ∧
    index.keyGenerations.size ≤ maxGenerationTombstones

theorem capped_of_generationState_eq {other : TagIndex} (hcap : Capped index)
    (h : other.generationState = index.generationState) : Capped other := by
  simp only [generationState, Prod.mk.injEq] at h
  rwa [Capped, h.1, h.2.1]

theorem capped_rotateIfFull (hcap : Capped index) (tombstones : KeyMap String ℕ) (name : String) :
    Capped (index.rotateIfFull tombstones name) := by
  unfold rotateIfFull
  split_ifs
  · exact ⟨Nat.zero_le _, Nat.zero_le _⟩
  · exact hcap

/-- After a rotation if one was due, there is room for one more name in the map that was checked. -/
theorem size_insert_le_of_rotated {tombstones rotated : KeyMap String ℕ} {name : String}
    (hcap : tombstones.size ≤ maxGenerationTombstones) (value : ℕ)
    (hrot : rotated = if name ∉ tombstones ∧ maxGenerationTombstones ≤ tombstones.size then ∅
      else tombstones) :
    KeyMap.size (rotated.insert name value) ≤ maxGenerationTombstones := by
  subst hrot
  split_ifs with hfull
  · exact (size_insert_le _ _ _).trans (by simp [maxGenerationTombstones])
  · by_cases hmem : name ∈ tombstones
    · rwa [size_insert_of_mem hmem]
    · have hroom : tombstones.size < maxGenerationTombstones := by
        by_contra hge
        exact hfull ⟨hmem, Nat.le_of_not_lt hge⟩
      exact (size_insert_le _ _ _).trans hroom

theorem capped_apply (hcap : Capped index) (op : IndexOp) : Capped (apply index op) := by
  cases hbump : op.bumps with
  | false =>
    exact capped_of_generationState_eq hcap (generationState_apply_of_not_bumps index hbump)
  | true =>
    cases op with
    | takeTag =>
      refine ⟨size_insert_le_of_rotated hcap.1 _ ?_, (capped_rotateIfFull hcap ..).2⟩
      unfold rotateIfFull
      split_ifs <;> rfl
    | advanceKey =>
      refine ⟨(capped_rotateIfFull hcap ..).1, size_insert_le_of_rotated hcap.2 _ ?_⟩
      unfold rotateIfFull
      split_ifs <;> rfl
    | clear => exact ⟨Nat.zero_le _, Nat.zero_le _⟩
    | register | unregister | unregisterIfVersion | reconcileMemberships => cases hbump

theorem capped_applyAll (hcap : Capped index) (ops : List IndexOp) :
    Capped (applyAll index ops) := by
  induction ops generalizing index with
  | nil => exact hcap
  | cons op _ ih => exact ih (capped_apply hcap op)

/-- Assumes: fewer than 2^64 operations that advance a generation. A snapshot taken after `earlier`
is current after `later` only if no operation of `later` invalidates it; once it is not current it
stays so; and the generation maps are within their cap throughout. -/
theorem snapshot_fencing (earlier later : List IndexOp) (key : Key) (tags : List Tag)
    (hbumps : bumpCount (earlier ++ later) < 2 ^ 64) :
    let taken := applyAll {} earlier
    let snapshot := taken.snapshot key tags
    ((applyAll taken later).isCurrent snapshot = true →
        ∀ op ∈ later, ¬ op.Invalidates snapshot) ∧
      (∀ first second, later = first ++ second →
        (applyAll taken first).isCurrent snapshot = false →
          (applyAll taken later).isCurrent snapshot = false) ∧
      Capped (applyAll taken later) := by
  intro taken snapshot
  rw [bumpCount_append] at hbumps
  have hstart : ({} : TagIndex).clock.BoundedBy 0 :=
    ⟨le_refl _, fun resource ↦ by cases resource <;> exact le_refl _⟩
  have htaken : taken.clock.BoundedBy (bumpCount earlier) := by
    simpa using (clock_applyAll earlier hstart (by simp only [wordSize]; omega)).2
  refine ⟨fun hcur op hop hinv ↦ ?_, fun first second hsplit hstale ↦ ?_, ?_⟩
  · obtain ⟨first, second, rfl⟩ := List.append_of_mem hop
    rw [bumpCount_append, bumpCount_cons] at hbumps
    obtain ⟨hfirst, hbound⟩ := clock_applyAll first htaken (by simp only [wordSize]; omega)
    have hone : bumpCount [op] = 1 := by
      cases op <;> first | rfl | exact False.elim hinv
    have hroom : bumpCount earlier + bumpCount first ≤ wordSize - 2 := by
      simp only [wordSize]
      omega
    have hafter := boundedBy_apply op hbound fun _ ↦ hroom
    have hsnd := (clock_applyAll second hafter (by simp only [wordSize]; omega)).1
    rw [applyAll_append] at hcur
    exact not_agreeOn_of_invalidates (hbound.mono hroom) hinv hfirst hsnd
      ((isCurrent_snapshot_iff ..).mp hcur)
  · subst hsplit
    rw [bumpCount_append] at hbumps
    obtain ⟨hfirst, hbound⟩ := clock_applyAll first htaken (by simp only [wordSize]; omega)
    have hsnd := (clock_applyAll second hbound (by simp only [wordSize]; omega)).1
    rw [← Bool.not_eq_true] at hstale ⊢
    rw [applyAll_append]
    intro hcur
    have hagree := (isCurrent_snapshot_iff _ taken key tags).mp hcur
    exact hstale ((isCurrent_snapshot_iff ..).mpr (hagree.of_le_of_le hfirst hsnd))
  · exact capped_applyAll (capped_applyAll ⟨Nat.zero_le _, Nat.zero_le _⟩ earlier) later

/-- The snapshot of a load tagged `users` is refused after the tag was taken. -/
theorem snapshot_fencing_after_takeTag :
    bumpCount ([.register "user:42" ["users"] 1] ++ [.takeTag "users"]) < 2 ^ 64 ∧
      let taken := applyAll {} [.register "user:42" ["users"] 1]
      ¬ (applyAll taken [.takeTag "users"]).isCurrent (taken.snapshot "user:42" ["users"]) = true :=
  ⟨by decide, fun hcur ↦
    (snapshot_fencing [.register "user:42" ["users"] 1] [.takeTag "users"] "user:42" ["users"]
      (by decide)).1 hcur (.takeTag "users") (List.mem_singleton_self _) (by
        simp [Invalidates, snapshot])⟩

end IndexOp

end HydraCache.Local
