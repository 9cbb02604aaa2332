import HydraCache.Lib.Bytes
import HydraCache.Lib.Run

/-!
# Reading a byte string from front to back

A cursor stands in a byte string: `rest` is what is left to read and `position` how much was read. A
`Reader` takes fields off the rest and fails at the first that is not there. Each reader has one
law, an equivalence: it returns a value exactly when the rest begins with that value as it is
written (`Cursor.Moves`). The laws go together along the binds of a reader by `moves_append_iff`, so
that a decoder is compared with its encoder by rewriting: what is accepted is what was written, in
both directions.
-/

set_option autoImplicit false

namespace HydraCache.Lib

open List

structure Cursor where
  rest : Bytes
  position : ℕ := 0

/-- Reading `read` takes the cursor to `next`, at a position that is still a 64-bit word. -/
structure Cursor.Moves (cursor : Cursor) (read : Bytes) (next : Cursor) : Prop where
  rest : cursor.rest = read ++ next.rest
  position : next.position = cursor.position + read.length
  word : next.position ≤ maxWord

abbrev Reader (ε α : Type) := StateT Cursor (Except ε) α

variable {ε α β : Type} {cursor next : Cursor}

theorem Cursor.moves_append_iff {first second : Bytes} :
    cursor.Moves (first ++ second) next ↔
      ∃ middle, cursor.Moves first middle ∧ middle.Moves second next := by
  constructor
  · rintro ⟨hrest, hpos, hword⟩
    rw [length_append] at hpos
    refine ⟨⟨second ++ next.rest, cursor.position + first.length⟩, ⟨?_, rfl, ?_⟩, ⟨rfl, ?_, hword⟩⟩
    · rw [hrest, append_assoc]
    · exact (Nat.le_add_right _ _).trans (by rwa [hpos, ← Nat.add_assoc] at hword)
    · rw [hpos, Nat.add_assoc]
  · rintro ⟨middle, hfirst, hsnd⟩
    refine ⟨?_, ?_, hsnd.word⟩
    · rw [hfirst.rest, hsnd.rest, append_assoc]
    · rw [hsnd.position, hfirst.position, length_append, Nat.add_assoc]

namespace Reader

theorem run_bind_eq_ok_iff {x : Reader ε α} {f : α → Reader ε β} {b : β} :
    (x >>= f).run cursor = .ok (b, next) ↔
      ∃ a middle, x.run cursor = .ok (a, middle) ∧ (f a).run middle = .ok (b, next) := by
  rw [StateT.run_bind, bind_eq_ok_iff, Prod.exists]

theorem run_pure_eq_ok_iff {a b : α} :
    (pure a : Reader ε α).run cursor = .ok (b, next) ↔ b = a ∧ next = cursor := by
  rw [StateT.run_pure]
  simp [pure, Except.pure, eq_comm]

theorem run_get_eq_ok_iff {found : Cursor} :
    (get : Reader ε Cursor).run cursor = .ok (found, next) ↔ found = cursor ∧ next = cursor := by
  rw [StateT.run_get]
  simp [pure, Except.pure, eq_comm]

/-- Go on if the condition holds. -/
def ensure (condition : Prop) [Decidable condition] (error : ε) : Reader ε Unit :=
  if condition then pure () else throw error

theorem run_ensure_eq_ok_iff {condition : Prop} [Decidable condition] {error : ε} {u : Unit} :
    (ensure condition error).run cursor = .ok (u, next) ↔ condition ∧ next = cursor := by
  unfold ensure
  split_ifs with h
  · rw [run_pure_eq_ok_iff]
    simp [h]
  · refine iff_of_false (fun hrun ↦ ?_) fun hcond ↦ h hcond.1
    cases hrun

/-- What a reader says of a field that it cannot read. -/
structure Faults (ε : Type) where
  overflow : ε
  truncated : ε
  notUtf8 : ε

variable (faults : Faults ε)

def take (length : ℕ) : Reader ε Bytes := do
  let cursor ← get
  if maxWord < cursor.position + length then throw faults.overflow
  else if cursor.rest.length < length then throw faults.truncated
  else do
    set { rest := cursor.rest.drop length, position := cursor.position + length : Cursor }
    pure (cursor.rest.take length)

/-- A number of the width, least significant byte first. -/
def number (width : ℕ) : Reader ε ℕ := do
  let bytes ← take faults width
  pure (ofLittleEndian bytes)

/-- A field with its length in front of it. -/
def field : Reader ε Bytes := do
  let length ← number faults 4
  take faults length

/-- A field of UTF-8. -/
def text : Reader ε String := do
  let bytes ← field faults
  match ofUtf8 bytes with
  | some text => pure text
  | none => throw faults.notUtf8

/-- A field as it is written. -/
def fieldBytes (bytes : Bytes) : Bytes := littleEndian 4 bytes.length ++ bytes

variable {faults} {bytes : Bytes} {n : ℕ}

theorem run_take_eq_ok_iff {length : ℕ} :
    (take faults length).run cursor = .ok (bytes, next) ↔
      bytes.length = length ∧ cursor.Moves bytes next := by
  have hrun : (take faults length).run cursor =
      if maxWord < cursor.position + length then .error faults.overflow
      else if cursor.rest.length < length then .error faults.truncated
      else .ok (cursor.rest.take length,
        { rest := cursor.rest.drop length, position := cursor.position + length }) := by
    change (if maxWord < cursor.position + length then throw faults.overflow
      else _ : Reader ε Bytes).run cursor = _
    split_ifs <;> rfl
  rw [hrun]
  constructor
  · intro h
    split_ifs at h with hoverflow htruncated
    cases h
    have hlen : (cursor.rest.take length).length = length :=
      length_take_of_le (not_lt.mp htruncated)
    refine ⟨hlen, (take_append_drop length cursor.rest).symm, ?_, not_lt.mp hoverflow⟩
    rw [hlen]
  · rintro ⟨rfl, hrest, hpos, hword⟩
    have hlen : bytes.length ≤ cursor.rest.length := by
      rw [hrest, length_append]
      exact Nat.le_add_right _ _
    rw [if_neg (by rw [← hpos]; exact hword.not_gt), if_neg hlen.not_gt, hrest,
      take_left, drop_left, ← hpos]

theorem run_number_eq_ok_iff {width : ℕ} :
    (number faults width).run cursor = .ok (n, next) ↔
      n < 256 ^ width ∧ cursor.Moves (littleEndian width n) next := by
  simp only [number, run_bind_eq_ok_iff, run_take_eq_ok_iff, run_pure_eq_ok_iff]
  constructor
  · rintro ⟨bytes, middle, ⟨rfl, hmoves⟩, rfl, rfl⟩
    rw [littleEndian_ofLittleEndian]
    exact ⟨ofLittleEndian_lt bytes, hmoves⟩
  · rintro ⟨hlt, hmoves⟩
    exact ⟨_, _, ⟨length_littleEndian width n, hmoves⟩, (ofLittleEndian_littleEndian hlt).symm, rfl⟩

theorem run_field_eq_ok_iff :
    (field faults).run cursor = .ok (bytes, next) ↔
      bytes.length < 256 ^ 4 ∧ cursor.Moves (fieldBytes bytes) next := by
  simp only [field, fieldBytes, run_bind_eq_ok_iff, run_take_eq_ok_iff, run_number_eq_ok_iff,
    Cursor.moves_append_iff]
  constructor
  · rintro ⟨length, middle, ⟨hlt, hlen⟩, rfl, hbytes⟩
    exact ⟨hlt, middle, hlen, hbytes⟩
  · rintro ⟨hlt, middle, hlen, hbytes⟩
    exact ⟨_, middle, ⟨hlt, hlen⟩, rfl, hbytes⟩

theorem run_text_eq_ok_iff {found : String} :
    (text faults).run cursor = .ok (found, next) ↔
      (utf8 found).length < 256 ^ 4 ∧ cursor.Moves (fieldBytes (utf8 found)) next := by
  simp only [text, run_bind_eq_ok_iff, run_field_eq_ok_iff]
  constructor
  · rintro ⟨bytes, middle, hfield, htext⟩
    cases hutf8 : ofUtf8 bytes with
    | none =>
      rw [hutf8] at htext
      cases htext
    | some text =>
      rw [hutf8, run_pure_eq_ok_iff] at htext
      obtain ⟨rfl, rfl⟩ := htext
      rwa [← ofUtf8_eq_some_iff.mp hutf8]
  · intro hfield
    refine ⟨utf8 found, next, hfield, ?_⟩
    rw [ofUtf8_utf8]
    exact run_pure_eq_ok_iff.mpr ⟨rfl, rfl⟩

end Reader

end HydraCache.Lib
