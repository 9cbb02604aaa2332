import HydraCache.Lib.Word
import Mathlib.Data.String.Basic

/-!
# Bytes

Byte strings are lists of `UInt8`, ordered lexicographically. Numbers stand in them at a fixed
width: with the least significant byte first (`littleEndian`), where every string of the width is
the writing of exactly one number, or with the most significant byte first (`bigEndian`), where
moreover the order of the strings is the order of the numbers (`bigEndian_lt_bigEndian`). Text
stands in them as UTF-8 (`utf8`), and a byte string is read as text exactly when it is the UTF-8 of
that text (`ofUtf8_eq_some_iff`). `fnv1a` is the FNV-1a hash of a byte string, which tells apart
strings that differ at one place (`fnv1aFrom_ne`).
-/

set_option autoImplicit false

namespace HydraCache.Lib

open List

abbrev Bytes := List UInt8

instance linearOrderByte : LinearOrder UInt8 where
  le_refl := UInt8.le_refl
  le_trans _ _ _ := UInt8.le_trans
  le_antisymm _ _ := UInt8.le_antisymm
  le_total := UInt8.le_total
  lt_iff_le_not_ge a b := by
    rw [UInt8.not_le]
    exact ⟨fun h ↦ ⟨UInt8.le_of_lt h, h⟩, And.right⟩
  toDecidableLE := fun a b ↦ UInt8.decLe a b
  toDecidableLT := fun a b ↦ UInt8.decLt a b
  toDecidableEq := fun a b ↦ decEq a b
  compare_eq_compareOfLessAndEq _ _ := rfl

/-! ### Numbers, least significant byte first -/

/-- The low `width` bytes of `n`. -/
def littleEndian : ℕ → ℕ → Bytes
  | 0, _ => []
  | width + 1, n => UInt8.ofNat n :: littleEndian width (n / 256)

def ofLittleEndian : Bytes → ℕ
  | [] => 0
  | byte :: bytes => byte.toNat + 256 * ofLittleEndian bytes

@[simp] theorem length_littleEndian (width n : ℕ) : (littleEndian width n).length = width := by
  induction width generalizing n with
  | zero => rfl
  | succ _ ih => rw [littleEndian, length_cons, ih]

variable {width n : ℕ} {bytes others : Bytes} {state : UInt64}

/-- Assumes: a number that fits the width. It is read back. -/
theorem ofLittleEndian_littleEndian (h : n < 256 ^ width) :
    ofLittleEndian (littleEndian width n) = n := by
  induction width generalizing n with
  | zero =>
    rw [Nat.pow_zero, Nat.lt_one_iff] at h
    rw [h]
    rfl
  | succ width ih =>
    have hrest : n / 256 < 256 ^ width := by
      rw [Nat.pow_succ] at h
      exact Nat.div_lt_of_lt_mul (by rwa [Nat.mul_comm])
    rw [littleEndian, ofLittleEndian, ih hrest, UInt8.toNat_ofNat', Nat.mod_add_div]

theorem littleEndian_ofLittleEndian (bytes : Bytes) :
    littleEndian bytes.length (ofLittleEndian bytes) = bytes := by
  induction bytes with
  | nil => rfl
  | cons byte bytes ih =>
    have hbyte : byte.toNat < 256 := byte.toNat_lt
    have hlow : UInt8.ofNat (byte.toNat + 256 * ofLittleEndian bytes) = byte := by
      rw [← UInt8.toNat_inj, UInt8.toNat_ofNat']
      omega
    have hhigh : (byte.toNat + 256 * ofLittleEndian bytes) / 256 = ofLittleEndian bytes := by
      omega
    rw [length_cons, ofLittleEndian, littleEndian, hlow, hhigh, ih]

theorem ofLittleEndian_lt (bytes : Bytes) : ofLittleEndian bytes < 256 ^ bytes.length := by
  induction bytes with
  | nil => exact Nat.one_pos
  | cons byte =>
    have hbyte : byte.toNat < 256 := byte.toNat_lt
    rw [ofLittleEndian, length_cons, Nat.pow_succ]
    omega

/-! ### Numbers, most significant byte first -/

/-- The low `width` bytes of `n`. -/
def bigEndian : ℕ → ℕ → Bytes
  | 0, _ => []
  | width + 1, n => UInt8.ofNat (n / 256 ^ width) :: bigEndian width (n % 256 ^ width)

def ofBigEndian : Bytes → ℕ
  | [] => 0
  | byte :: bytes => byte.toNat * 256 ^ bytes.length + ofBigEndian bytes

@[simp] theorem length_bigEndian (width n : ℕ) : (bigEndian width n).length = width := by
  induction width generalizing n with
  | zero => rfl
  | succ _ ih => rw [bigEndian, length_cons, ih]

theorem toNat_ofNat_div (h : n < 256 ^ (width + 1)) :
    (UInt8.ofNat (n / 256 ^ width)).toNat = n / 256 ^ width := by
  refine UInt8.toNat_ofNat_of_lt' ?_
  exact Nat.div_lt_of_lt_mul (by rwa [Nat.pow_succ] at h)

/-- Assumes: a number that fits the width. It is read back. -/
theorem ofBigEndian_bigEndian (h : n < 256 ^ width) : ofBigEndian (bigEndian width n) = n := by
  induction width generalizing n with
  | zero =>
    rw [Nat.pow_zero, Nat.lt_one_iff] at h
    rw [h]
    rfl
  | succ width ih =>
    have hpos : 0 < 256 ^ width := Nat.pow_pos (by decide)
    rw [bigEndian, ofBigEndian, length_bigEndian, toNat_ofNat_div h, ih (Nat.mod_lt n hpos),
      Nat.mul_comm, Nat.div_add_mod]

/-- Assumes: numbers that fit the width. The smaller one is written first. -/
theorem bigEndian_lt_bigEndian {m : ℕ} (hlt : n < m) (hm : m < 256 ^ width) :
    bigEndian width n < bigEndian width m := by
  induction width generalizing n m with
  | zero =>
    rw [Nat.pow_zero, Nat.lt_one_iff] at hm
    omega
  | succ width ih =>
    have hpos : 0 < 256 ^ width := Nat.pow_pos (by decide)
    rw [bigEndian, bigEndian, cons_lt_cons_iff, UInt8.lt_iff_toNat_lt,
      ← UInt8.toNat_inj, toNat_ofNat_div (hlt.trans hm), toNat_ofNat_div hm]
    rcases Nat.lt_or_ge (n / 256 ^ width) (m / 256 ^ width) with hhead | hhead
    · exact Or.inl hhead
    · -- the same first byte, so the rest decides
      have hsame : n / 256 ^ width = m / 256 ^ width :=
        Nat.le_antisymm (Nat.div_le_div_right hlt.le) hhead
      refine Or.inr ⟨hsame, ih ?_ (Nat.mod_lt m hpos)⟩
      have hn := Nat.div_add_mod n (256 ^ width)
      have hm' := Nat.div_add_mod m (256 ^ width)
      rw [hsame] at hn
      omega

/-- A string between two with a common beginning begins so too. -/
theorem isPrefixOf_of_le_of_le {front bytes before after : Bytes} (hpre : front ++ before ≤ bytes)
    (hafter : bytes ≤ front ++ after) : front.isPrefixOf bytes = true := by
  induction front generalizing bytes with
  | nil => rfl
  | cons first front ih =>
    cases bytes with
    | nil => exact absurd (nil_lt_cons first (front ++ before)) hpre.not_gt
    | cons byte =>
      rw [cons_append, ← not_lt, cons_lt_cons_iff, not_or, not_and] at hpre hafter
      obtain rfl : first = byte := le_antisymm (not_lt.mp hpre.1) (not_lt.mp hafter.1)
      simp [ih (not_lt.mp (hpre.2 rfl)) (not_lt.mp (hafter.2 rfl))]

/-! ### Text -/

def utf8 (text : String) : Bytes := text.toUTF8.data.toList

/-- The text of a byte string that is valid UTF-8. -/
def ofUtf8 (bytes : Bytes) : Option String := String.fromUTF8? ⟨bytes.toArray⟩

@[simp] theorem ofUtf8_utf8 (text : String) : ofUtf8 (utf8 text) = some text := by
  exact dif_pos text.isValidUTF8

theorem ofUtf8_eq_some_iff {text : String} : ofUtf8 bytes = some text ↔ bytes = utf8 text := by
  constructor
  · intro h
    unfold ofUtf8 String.fromUTF8? at h
    split_ifs at h with hvalid
    cases h
    rfl
  · rintro rfl
    exact ofUtf8_utf8 text

theorem utf8_injective {text other : String} (h : utf8 text = utf8 other) : text = other := by
  have hread := ofUtf8_utf8 text
  rw [h, ofUtf8_utf8] at hread
  exact (Option.some.inj hread).symm

/-- Assumes: letters of ASCII. Each is written as one byte. -/
theorem utf8_ofList_of_lt {letters : List Char} (h : ∀ letter ∈ letters, letter.toNat < 128) :
    utf8 (String.ofList letters) = letters.map fun letter ↦ UInt8.ofNat letter.toNat := by
  have hbytes : utf8 (String.ofList letters) = letters.flatMap String.utf8EncodeChar :=
    toList_data_toByteArray
  rw [hbytes]
  clear hbytes
  induction letters with
  | nil => rfl
  | cons letter _ ih =>
    have hsize : letter.utf8Size = 1 := by
      rw [Char.utf8Size_eq_one_iff, UInt32.le_iff_toNat_le]
      exact Nat.le_of_lt_succ (h letter mem_cons_self)
    rw [flatMap_cons, String.utf8EncodeChar_eq_singleton hsize, map_cons,
      ih fun other hother ↦ h other (mem_cons_of_mem _ hother)]
    rfl

/-- A letter is at most four bytes. -/
theorem length_utf8_ofList_le (letters : List Char) :
    (utf8 (String.ofList letters)).length ≤ 4 * letters.length := by
  have hsize : (utf8 (String.ofList letters)).length = String.utf8Len letters :=
    String.utf8ByteSize_ofList letters
  rw [hsize]
  clear hsize
  induction letters with
  | nil => rfl
  | cons letter =>
    have hchar := letter.utf8Size_le_four
    rw [String.utf8Len_cons, length_cons]
    omega

/-! ### Hashing -/

/-- The FNV-1a hash of the bytes, from the given state. -/
def fnv1aFrom (hash : UInt64) (bytes : Bytes) : UInt64 :=
  bytes.foldl (fun hash byte ↦ (hash ^^^ byte.toUInt64) * 0x100000001b3) hash

/-- The FNV-1a hash of the bytes. -/
def fnv1a (bytes : Bytes) : UInt64 := fnv1aFrom 0xcbf29ce484222325 bytes

/-! ### Byte strings that differ at one place -/

/-- The number of places at which two strings of one length differ. -/
def mismatches (bytes others : Bytes) : ℕ := (bytes.zip others).countP fun pair ↦ pair.1 ≠ pair.2

theorem mismatches_cons (byte other : UInt8) (bytes others : Bytes) :
    mismatches (byte :: bytes) (other :: others) =
      mismatches bytes others + if byte = other then 0 else 1 := by
  simp [mismatches, countP_cons]

theorem mismatches_append (h : bytes.length = others.length) (rest tail : Bytes) :
    mismatches (bytes ++ rest) (others ++ tail) =
      mismatches bytes others + mismatches rest tail := by
  rw [mismatches, zip_append h, countP_append]
  rfl

/-- Assumes: strings of one length. They are the same when they differ nowhere. -/
theorem mismatches_eq_zero_iff (h : bytes.length = others.length) :
    mismatches bytes others = 0 ↔ bytes = others := by
  induction bytes generalizing others with
  | nil => simp [mismatches, length_eq_zero_iff.mp h.symm]
  | cons _ _ ih =>
    obtain ⟨other, others, rfl⟩ := exists_cons_of_length_eq_add_one h.symm
    rw [mismatches_cons, List.cons.injEq, ← ih (Nat.succ.inj h)]
    split_ifs with hbyte <;> simp [hbyte]

@[simp] theorem mismatches_self (bytes : Bytes) : mismatches bytes bytes = 0 :=
  (mismatches_eq_zero_iff rfl).mpr rfl

theorem mismatches_set {offset : ℕ} {byte : UInt8} (hoffset : offset < bytes.length)
    (hbyte : bytes[offset]? ≠ some byte) : mismatches bytes (bytes.set offset byte) = 1 := by
  induction bytes generalizing offset with
  | nil => exact absurd hoffset (Nat.not_lt_zero offset)
  | cons _ _ ih =>
    cases offset with
    | zero =>
      rw [set_cons_zero, mismatches_cons, mismatches_self,
        if_neg fun heq ↦ hbyte (congrArg some heq)]
    | succ =>
      rw [set_cons_succ, mismatches_cons, if_pos rfl]
      exact ih (Nat.lt_of_succ_lt_succ hoffset) hbyte

/-- The factor of the hash is odd, so a step of it can be undone. -/
theorem eq_of_mul_fnvPrime {next : UInt64}
    (h : state * 0x100000001b3 = next * 0x100000001b3) : state = next := by
  have hinverse : (0x100000001b3 : UInt64) * 0xce965057aff6957b = 1 := by decide
  have hproduct := congrArg (· * (0xce965057aff6957b : UInt64)) h
  simpa only [UInt64.mul_assoc, hinverse, UInt64.mul_one] using hproduct

theorem fnv1aFrom_injective {next : UInt64}
    (h : fnv1aFrom state bytes = fnv1aFrom next bytes) : state = next := by
  induction bytes generalizing state next with
  | nil => exact h
  | cons _ _ ih => exact (UInt64.xor_left_inj _).mp (eq_of_mul_fnvPrime (ih h))

/-- Assumes: strings of one length that differ at one place. So do their hashes. -/
theorem fnv1aFrom_ne (hlen : bytes.length = others.length)
    (h : mismatches bytes others = 1) : fnv1aFrom state bytes ≠ fnv1aFrom state others := by
  induction bytes generalizing others state with
  | nil => simp [length_eq_zero_iff.mp hlen.symm] at h
  | cons _ _ ih =>
    obtain ⟨other, others, rfl⟩ := exists_cons_of_length_eq_add_one hlen.symm
    have hrest := Nat.succ.inj hlen
    rw [mismatches_cons] at h
    split_ifs at h with hbyte
    · subst hbyte
      exact ih hrest h
    · -- the rest is the same, and the states before it differ
      rw [(mismatches_eq_zero_iff hrest).mp (Nat.succ.inj h)]
      intro hhash
      have hstate := eq_of_mul_fnvPrime (fnv1aFrom_injective hhash)
      exact hbyte (UInt8.toUInt64_inj.mp ((UInt64.xor_right_inj _).mp hstate))

end HydraCache.Lib
