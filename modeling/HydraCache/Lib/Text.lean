import HydraCache.Lib.Word
import Mathlib.Data.List.DropRight
import Mathlib.Data.String.Basic

/-!
# Separated text

Text that is put together from parts by a one-character separator and taken apart again at the same
character. Taking apart is the inverse of putting together exactly on parts that do not contain the
separator: `splitChar_joinChar` gives one direction, and `notMem_of_mem_splitChar` says that no part
of a split contains the separator, so nothing else can come back.

Numbers are written in decimal (`decimal`) and read by a parser of 64-bit words that accepts a
leading plus sign and leading zeros (`parseWord`), so reading is not injective, but it is the
inverse of writing (`parseWord_decimal`); `padded` writes them with leading zeros. `replaceChar`
writes every occurrence of a character as a text of its own.

`lines` takes a text apart at its line feeds, with or without carriage returns, and `lines_unlines`
puts it together again from lines that contain neither. `trim` drops the white space at the two ends
of a text.
-/

set_option autoImplicit false

namespace HydraCache.Lib

open List

/-! ### Parts -/

section

variable (c : Char)

/-- The parts of a text between the occurrences of `c`. -/
def splitChar (text : String) : List String :=
  (text.toList.splitOn c).map String.ofList

/-- The parts one after another with `c` between them. -/
def joinChar (parts : List String) : String :=
  String.ofList ([c].intercalate (parts.map String.toList))

/-- What stands before the first `c` and what stands after it. -/
def splitOnceChar (text : String) : Option (String × String) :=
  match text.toList.dropWhile (· ≠ c) with
  | _ :: back => some (String.ofList (text.toList.takeWhile (· ≠ c)), String.ofList back)
  | [] => none

/-- The text without `lead` in front of it. -/
def stripLead (lead text : String) : Option String :=
  (text.toList.dropPrefix? lead.toList).map String.ofList

/-- The text with `written` in the place of every `c`. -/
def replaceChar (written text : String) : String :=
  String.ofList (text.toList.flatMap fun x ↦ if x = c then written.toList else [x])

@[simp] theorem toList_joinChar_nil : (joinChar c []).toList = [] := by
  simp [joinChar]

@[simp] theorem toList_joinChar_singleton (part : String) :
    (joinChar c [part]).toList = part.toList := by
  simp [joinChar]

@[simp] theorem toList_joinChar_cons_cons (part next : String) (parts : List String) :
    (joinChar c (part :: next :: parts)).toList =
      part.toList ++ c :: (joinChar c (next :: parts)).toList := by
  simp [joinChar, List.intercalate]

end

variable {c x : Char} {parts : List String} {front text : String} {n : ℕ}

theorem splitChar_joinChar (hne : parts ≠ [])
    (h : ∀ part ∈ parts, c ∉ part.toList) : splitChar c (joinChar c parts) = parts := by
  rw [splitChar, joinChar, String.toList_ofList, splitOn_intercalate, map_map]
  · simp
  · intro letters hchars
    obtain ⟨part, hpart, rfl⟩ := mem_map.mp hchars
    exact h part hpart
  · simpa using hne

/-- A character other than the separator comes from one of the parts. -/
theorem mem_joinChar_iff (hx : x ≠ c) :
    x ∈ (joinChar c parts).toList ↔ ∃ part ∈ parts, x ∈ part.toList := by
  induction parts with
  | nil => simp
  | cons _ parts ih =>
    cases parts with
    | nil => simp
    | cons =>
      rw [toList_joinChar_cons_cons, mem_append, mem_cons, ih]
      simp [hx]

theorem notMem_append {back : String} (hfront : x ∉ front.toList)
    (hback : x ∉ back.toList) : x ∉ (front ++ back).toList := by
  rw [String.toList_append, mem_append]
  exact not_or_intro hfront hback

theorem splitChar_of_notMem (h : c ∉ text.toList) : splitChar c text = [text] := by
  rw [splitChar, splitOn_eq_singleton h]
  simp

/-- A text is split at one occurrence of the separator, and then on both sides of it. -/
theorem splitChar_of_toList_eq {back : String}
    (h : text.toList = front.toList ++ c :: back.toList) :
    splitChar c text = splitChar c front ++ splitChar c back := by
  rw [splitChar, h, splitOn_append_cons_self, map_append]
  rfl

theorem exists_splitChar_of_mem (h : c ∈ text.toList) :
    ∃ first second rest, splitChar c text = first :: second :: rest := by
  obtain ⟨front, back, hsplit, hfront⟩ := eq_append_cons_of_mem h
  obtain ⟨second, rest, hback⟩ := exists_cons_of_ne_nil (splitOn_ne_nil c back)
  rw [splitChar, hsplit, splitOn_append_cons_self_of_not_mem hfront, hback]
  exact ⟨_, _, _, rfl⟩

/-- No part of a split contains the separator. -/
theorem notMem_of_mem_splitOn {α : Type*} [DecidableEq α] {c : α} {part text : List α}
    (h : part ∈ text.splitOn c) : c ∉ part := by
  induction text generalizing part with
  | nil =>
    rw [splitOn_nil, mem_singleton] at h
    rw [h]
    exact not_mem_nil
  | cons letter text ih =>
    obtain ⟨first, others, hsplit⟩ := exists_cons_of_ne_nil (splitOn_ne_nil c text)
    rw [splitOn_cons_eq_if_modifyHead, hsplit] at h
    rw [hsplit] at ih
    split_ifs at h with hletter
    · rcases mem_cons.mp h with rfl | hrest
      · exact not_mem_nil
      · exact ih hrest
    · -- the letter goes to the front of the first part of the rest
      rcases mem_cons.mp h with rfl | hothers
      · refine not_mem_cons_of_ne_of_not_mem (fun heq ↦ hletter ?_) (ih mem_cons_self)
        exact beq_iff_eq.mpr heq.symm
      · exact ih (mem_cons_of_mem _ hothers)

theorem notMem_of_mem_splitChar {part : String} (h : part ∈ splitChar c text) :
    c ∉ part.toList := by
  obtain ⟨letters, hletters, rfl⟩ := mem_map.mp h
  rw [String.toList_ofList]
  exact notMem_of_mem_splitOn hletters

theorem splitOnceChar_append (h : c ∉ front.toList) (back : String) :
    splitOnceChar c (front ++ String.ofList [c] ++ back) = some (front, back) := by
  have htext : (front ++ String.ofList [c] ++ back).toList = front.toList ++ c :: back.toList := by
    simp
  have hfront : ∀ x ∈ front.toList, decide (x ≠ c) = true := by
    intro x hx
    exact decide_eq_true fun heq ↦ h (heq ▸ hx)
  rw [splitOnceChar, htext, takeWhile_append_of_pos hfront, dropWhile_append_of_pos hfront]
  simp

@[simp] theorem stripLead_append (lead text : String) :
    stripLead lead (lead ++ text) = some text := by
  rw [stripLead, String.toList_append, List.dropPrefix?_append_of_beq _ (by simp)]
  simp

/-! ### Lines -/

/-- The lines one after another, each with a line feed behind it. -/
def unlines (parts : List String) : String := joinChar '\n' (parts ++ [""])

/-- The line without a carriage return at its end. -/
def stripReturn (line : String) : String :=
  if line.toList.getLast? = some '\r' then String.ofList line.toList.dropLast else line

/-- The lines of a text: a line feed, with or without a carriage return before it, ends a line, and
what stands behind the last one is a line unless it is empty. -/
def lines (text : String) : List String :=
  let parts := splitChar '\n' text
  parts.dropLast.map stripReturn ++ parts.getLast?.toList.filter (· ≠ "")

theorem stripReturn_of_notMem {line : String} (h : '\r' ∉ line.toList) :
    stripReturn line = line := by
  rw [stripReturn, if_neg]
  intro hlast
  exact h (mem_of_getLast? hlast)

/-- Assumes: lines without line feeds and carriage returns. They are read back. -/
theorem lines_unlines (hfeed : ∀ part ∈ parts, '\n' ∉ part.toList)
    (hreturn : ∀ part ∈ parts, '\r' ∉ part.toList) : lines (unlines parts) = parts := by
  have hsplit : splitChar '\n' (unlines parts) = parts ++ [""] := by
    refine splitChar_joinChar (append_ne_nil_of_right_ne_nil _ (cons_ne_nil _ _)) ?_
    exact forall_mem_append.mpr ⟨hfeed, forall_mem_singleton.mpr not_mem_nil⟩
  have hstrip : parts.map stripReturn = parts := by
    rw [map_congr_left fun part hpart ↦ stripReturn_of_notMem (hreturn part hpart), map_id']
  simp [lines, hsplit, hstrip]

/-! ### White space -/

/-- The characters that Unicode counts as white space. -/
def isWhitespace (c : Char) : Bool :=
  let code := c.toNat
  (0x9 ≤ code && code ≤ 0xd) || code = 0x20 || code = 0x85 || code = 0xa0 || code = 0x1680 ||
    (0x2000 ≤ code && code ≤ 0x200a) || code = 0x2028 || code = 0x2029 || code = 0x202f ||
    code = 0x205f || code = 0x3000

/-- The text without the white space at its two ends. -/
def trim (text : String) : String :=
  String.ofList ((text.toList.dropWhile isWhitespace).rdropWhile isWhitespace)

/-! ### Escaping -/

theorem mem_replaceChar {written : String} : x ∈ (replaceChar c written text).toList ↔
      (x ∈ text.toList ∧ x ≠ c) ∨ (c ∈ text.toList ∧ x ∈ written.toList) := by
  rw [replaceChar, String.toList_ofList, mem_flatMap]
  constructor
  · rintro ⟨letter, hchar, hx⟩
    split_ifs at hx with hc
    · exact Or.inr ⟨hc ▸ hchar, hx⟩
    · rw [mem_singleton.mp hx]
      exact Or.inl ⟨hchar, hc⟩
  · rintro (⟨hx, hne⟩ | ⟨hc, hx⟩)
    · exact ⟨x, hx, by rw [if_neg hne]; exact mem_singleton_self x⟩
    · exact ⟨c, hc, by rw [if_pos rfl]; exact hx⟩

/-- A number as its hexadecimal digits after `0x`. -/
def hexadecimal (n : ℕ) : String := "0x" ++ String.ofList (Nat.toDigits 16 n)

/-! ### Decimal numbers -/

/-- A number as its decimal digits. -/
def decimal (n : ℕ) : String := String.ofList (Nat.toDigits 10 n)

theorem isDigit_of_mem_decimal (h : x ∈ (decimal n).toList) : x.isDigit = true := by
  rw [decimal, String.toList_ofList] at h
  exact Nat.isDigit_of_mem_toDigits (by decide) (by decide) h

theorem decimal_injective {m : ℕ} (h : decimal n = decimal m) : n = m := by
  have hdigits : Nat.toDigits 10 n = Nat.toDigits 10 m := String.ofList_injective h
  rw [← @Nat.ofDigitChars_ten_toDigits n, hdigits, Nat.ofDigitChars_ten_toDigits]

/-- A number as its decimal digits, with zeros in front of them up to the given width. -/
def padded (width n : ℕ) : String :=
  String.ofList (List.replicate (width - (Nat.toDigits 10 n).length) '0' ++ Nat.toDigits 10 n)

theorem ofDigitChars_replicate_zero (count : ℕ) (digits : List Char) :
    Nat.ofDigitChars 10 (List.replicate count '0' ++ digits) 0 = Nat.ofDigitChars 10 digits 0 := by
  induction count with
  | zero => rfl
  | succ => rwa [replicate_succ, cons_append, Nat.ofDigitChars_cons]

theorem padded_injective {width m : ℕ} (h : padded width n = padded width m) : n = m := by
  have hvalue (n : ℕ) : Nat.ofDigitChars 10 (padded width n).toList 0 = n := by
    rw [padded, String.toList_ofList, ofDigitChars_replicate_zero, Nat.ofDigitChars_ten_toDigits]
  rw [← hvalue n, h, hvalue m]

/-- Why a text is not a number. -/
inductive ParseIntError where
  | empty
  | invalidDigit
  | posOverflow
deriving DecidableEq

def ParseIntError.message : ParseIntError → String
  | .empty => "cannot parse integer from empty string"
  | .invalidDigit => "invalid digit found in string"
  | .posOverflow => "number too large to fit in target type"

/-- Read digits into `value`, up to the first that is no digit or leaves 64 bits. -/
def parseDigits (value : ℕ) : List Char → Except ParseIntError ℕ
  | [] => .ok value
  | digit :: digits =>
    if digit.isDigit = false then .error .invalidDigit
    else if maxWord < 10 * value + (digit.toNat - '0'.toNat) then .error .posOverflow
    else parseDigits (10 * value + (digit.toNat - '0'.toNat)) digits

/-- Read a 64-bit word; a plus sign may stand in front of its digits. -/
def parseWord (text : String) : Except ParseIntError ℕ :=
  match text.toList with
  | [] => .error .empty
  | ['+'] => .error .invalidDigit
  | '+' :: digits => parseDigits 0 digits
  | digits => parseDigits 0 digits

theorem le_ofDigitChars (value : ℕ) (digits : List Char) :
    value ≤ Nat.ofDigitChars 10 digits value := by
  rw [Nat.ofDigitChars_eq_ofDigitChars_zero]
  have hpow : 1 ≤ 10 ^ digits.length := Nat.one_le_pow _ _ (by decide)
  calc value = 1 * value := (Nat.one_mul value).symm
    _ ≤ 10 ^ digits.length * value := Nat.mul_le_mul_right value hpow
    _ ≤ _ := Nat.le_add_right _ _

theorem parseDigits_of_isDigit {value : ℕ} {digits : List Char}
    (hdigits : ∀ digit ∈ digits, digit.isDigit = true)
    (hword : Nat.ofDigitChars 10 digits value ≤ maxWord) :
    parseDigits value digits = .ok (Nat.ofDigitChars 10 digits value) := by
  induction digits generalizing value with
  | nil => rfl
  | cons digit digits ih =>
    rw [Nat.ofDigitChars_cons] at hword ⊢
    have hfits := (le_ofDigitChars (10 * value + (digit.toNat - '0'.toNat)) digits).trans hword
    rw [parseDigits, if_neg (by simp [hdigits digit mem_cons_self]), if_neg hfits.not_gt]
    exact ih (fun other hother ↦ hdigits other (mem_cons_of_mem _ hother)) hword

/-- Assumes: a 64-bit word. It is read back from its decimal digits. -/
theorem parseWord_decimal (h : n ≤ maxWord) : parseWord (decimal n) = .ok n := by
  have hdigits : ∀ digit ∈ Nat.toDigits 10 n, digit.isDigit = true := fun digit hdigit ↦
    Nat.isDigit_of_mem_toDigits (by decide) (by decide) hdigit
  obtain ⟨first, rest, hsplit⟩ := exists_cons_of_ne_nil (@Nat.toDigits_ne_nil n 10)
  have hfirst : first ≠ '+' := by
    rintro rfl
    exact absurd (hdigits '+' (hsplit ▸ mem_cons_self)) (by decide)
  have hparse : parseWord (decimal n) = parseDigits 0 (Nat.toDigits 10 n) := by
    rw [parseWord, decimal, String.toList_ofList, hsplit]
    split
    · rename_i heq
      exact absurd heq (cons_ne_nil _ _)
    · rename_i heq
      exact absurd (List.cons.inj heq).1 hfirst
    · rename_i heq
      exact absurd (List.cons.inj heq).1 hfirst
    · rfl
  rw [hparse, parseDigits_of_isDigit hdigits (by rw [Nat.ofDigitChars_ten_toDigits]; exact h),
    Nat.ofDigitChars_ten_toDigits]

end HydraCache.Lib
