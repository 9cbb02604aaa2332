import HydraCache.Grid.SessionContext
import HydraCache.Lib.Bytes

/-!
# The token that carries a session

A client carries its watermark in a token with a message authentication code over the session, the
nonce, the issue time and the watermark (`tokenMac`). The code is an FNV-1a hash of one string of
bytes (`macInput`): the numbers stand in it at fixed widths, and the name of a region stands in it
as it is, with nothing that says where it ends.

For one session and one secret the bytes and the lengths of the region names determine what the
token says (`contents_eq_iff`). The bytes alone do not. A region name may hold the bytes of a stamp
and of the next entry's partition, and then one entry reads as two (`macInput_watermark_ambiguous`).

Scope. The secret and the numbers are given, and the strength of the hash is not a subject here.
-/

set_option autoImplicit false

namespace HydraCache.Grid

open Lib List

/-! ### The bytes that are hashed -/

/-- One entry of the watermark. -/
def entryInput (row : PartitionKey × VersionStamp) : Bytes :=
  littleEndian 4 row.1.partition ++ (utf8 row.1.region ++ (littleEndian 8 row.2.version ++
    (littleEndian 8 row.2.epoch ++
      (littleEndian 8 row.2.hlc.wall ++ littleEndian 8 row.2.hlc.logical))))

section

variable (sessionId : String) (watermark : SessionWatermark) (nonce issuedAtMillis : ℕ)
  (secret : Bytes)

/-- All that is hashed, in order. -/
def macInput : Bytes :=
  secret ++ (utf8 sessionId ++ (littleEndian 8 nonce ++ (littleEndian 8 issuedAtMillis ++
    (littleEndian 8 watermark.cap ++ (littleEndian 8 watermark.coarsenedTotal ++
      watermark.seen.rows.flatMap entryInput)))))

def tokenMac : UInt64 := fnv1a (macInput sessionId watermark nonce issuedAtMillis secret)

end

/-! ### Tokens -/

structure SessionToken where
  sessionId : String
  watermark : SessionWatermark
  nonce : ℕ
  issuedAtMillis : ℕ
  mac : UInt64

inductive SessionTokenError where
  | forged
  | wrongSession
  | replayed
deriving DecidableEq

namespace SessionToken

def issue (sessionId : String) (watermark : SessionWatermark) (nonce issuedAtMillis : ℕ)
    (secret : Bytes) : SessionToken where
  sessionId := sessionId
  watermark := watermark
  nonce := nonce
  issuedAtMillis := issuedAtMillis
  mac := tokenMac sessionId watermark nonce issuedAtMillis secret

section

variable (token : SessionToken)

def verify (expectedSession : String) (secret : Bytes) (minNonce : ℕ) :
    Except SessionTokenError Unit :=
  if token.sessionId ≠ expectedSession then .error .wrongSession
  else if token.nonce < minNonce then .error .replayed
  else if tokenMac token.sessionId token.watermark token.nonce token.issuedAtMillis secret ≠
    token.mac then
    .error .forged
  else .ok ()

/-- The bytes the token's code is computed from. -/
def input (secret : Bytes) : Bytes :=
  macInput token.sessionId token.watermark token.nonce token.issuedAtMillis secret

/-- What the token says beside its session. -/
def contents : ℕ × ℕ × SessionWatermark :=
  (token.nonce, token.issuedAtMillis, token.watermark)

/-- The lengths of the region names, in the order of the entries. -/
def regionLengths : List ℕ :=
  token.watermark.seen.rows.map fun row ↦ (utf8 row.1.region).length

end

end SessionToken

open SessionToken

/-! ### Reading the bytes back -/

/-- The numbers of an entry fit their machine words. -/
structure EntryInRange (row : PartitionKey × VersionStamp) : Prop where
  partition : row.1.partition < 256 ^ 4
  version : row.2.version < 256 ^ 8
  epoch : row.2.epoch < 256 ^ 8
  wall : row.2.hlc.wall < 256 ^ 8
  logical : row.2.hlc.logical < 256 ^ 4

/-- The numbers of a token fit their machine words. -/
structure SessionToken.InRange (token : SessionToken) : Prop where
  nonce : token.nonce < 256 ^ 8
  issuedAtMillis : token.issuedAtMillis < 256 ^ 8
  cap : token.watermark.cap < 256 ^ 8
  coarsenedTotal : token.watermark.coarsenedTotal < 256 ^ 8
  entries : ∀ row ∈ token.watermark.seen.rows, EntryInRange row

/-- Assumes: numbers that fit the width, each written before some bytes. Number and rest are read
back. -/
theorem littleEndian_append_inj {width n m : ℕ} {rest other : Bytes} (hn : n < 256 ^ width)
    (hm : m < 256 ^ width) (h : littleEndian width n ++ rest = littleEndian width m ++ other) :
    n = m ∧ rest = other := by
  have hlen : (littleEndian width n).length = (littleEndian width m).length := by
    rw [length_littleEndian, length_littleEndian]
  obtain ⟨hnumber, hrest⟩ := append_inj h hlen
  refine ⟨?_, hrest⟩
  rw [← ofLittleEndian_littleEndian hn, hnumber, ofLittleEndian_littleEndian hm]

/-- Assumes: entries in range whose region names are equally long. They are read back, with what
follows. -/
theorem entryInput_append_inj {row other : PartitionKey × VersionStamp} {rest otherRest : Bytes}
    (hrow : EntryInRange row) (hother : EntryInRange other)
    (hlen : (utf8 row.1.region).length = (utf8 other.1.region).length)
    (h : entryInput row ++ rest = entryInput other ++ otherRest) :
    row = other ∧ rest = otherRest := by
  have hwide : ∀ n : ℕ, n < 256 ^ 4 → n < 256 ^ 8 := fun n hn ↦ hn.trans (by decide)
  simp only [entryInput, append_assoc] at h
  obtain ⟨hpart, h⟩ := littleEndian_append_inj hrow.partition hother.partition h
  obtain ⟨hreg, h⟩ := append_inj h hlen
  obtain ⟨hver, h⟩ := littleEndian_append_inj hrow.version hother.version h
  obtain ⟨hepoch, h⟩ := littleEndian_append_inj hrow.epoch hother.epoch h
  obtain ⟨hwall, h⟩ := littleEndian_append_inj hrow.wall hother.wall h
  obtain ⟨hlogical, hrest⟩ :=
    littleEndian_append_inj (hwide _ hrow.logical) (hwide _ hother.logical) h
  refine ⟨?_, hrest⟩
  obtain ⟨⟨partition, region⟩, version, epoch, wall, logical⟩ := row
  obtain ⟨⟨partition', region'⟩, version', epoch', wall', logical'⟩ := other
  cases hpart
  cases utf8_injective hreg
  cases hver
  cases hepoch
  cases hwall
  cases hlogical
  rfl

/-- Assumes: entries in range whose region names are equally long, one by one. They are read
back. -/
theorem flatMap_entryInput_inj {rows others : List (PartitionKey × VersionStamp)}
    (hrows : ∀ row ∈ rows, EntryInRange row) (hothers : ∀ row ∈ others, EntryInRange row)
    (hlens : (rows.map fun row ↦ (utf8 row.1.region).length) =
      others.map fun row ↦ (utf8 row.1.region).length)
    (h : rows.flatMap entryInput = others.flatMap entryInput) : rows = others := by
  induction rows generalizing others with
  | nil => exact (map_eq_nil_iff.mp hlens.symm).symm
  | cons row rows ih =>
    cases others with
    | nil => cases hlens
    | cons other others =>
      obtain ⟨hlen, htail⟩ := List.cons.inj hlens
      rw [flatMap_cons, flatMap_cons] at h
      obtain ⟨rfl, hrest⟩ := entryInput_append_inj (hrows row mem_cons_self)
        (hothers other mem_cons_self) hlen h
      rw [ih (fun row hrow ↦ hrows row (mem_cons_of_mem _ hrow))
        (fun row hrow ↦ hothers row (mem_cons_of_mem _ hrow)) htail hrest]

theorem SessionWatermark.eq_of_fields {watermark other : SessionWatermark}
    (hcap : watermark.cap = other.cap) (hseen : watermark.seen.rows = other.seen.rows)
    (htotal : watermark.coarsenedTotal = other.coarsenedTotal) : watermark = other := by
  obtain ⟨cap, ⟨rows, sorted⟩, total, positive, bounded⟩ := watermark
  obtain ⟨cap', ⟨rows', sorted'⟩, total', positive', bounded'⟩ := other
  cases hcap
  cases hseen
  cases htotal
  rfl

/-- Assumes: two tokens of one session whose numbers fit their words. They say the same exactly when
they feed the code the same bytes and their region names are equally long, one by one. -/
theorem contents_eq_iff {token other : SessionToken} (htoken : token.InRange)
    (hother : other.InRange) (hsession : token.sessionId = other.sessionId) (secret : Bytes) :
    token.contents = other.contents ↔
      token.input secret = other.input secret ∧ token.regionLengths = other.regionLengths := by
  constructor
  · intro h
    obtain ⟨hnonce, hrest⟩ := Prod.mk.inj h
    obtain ⟨hiss, hmark⟩ := Prod.mk.inj hrest
    unfold input regionLengths
    rw [hsession, hnonce, hiss, hmark]
    exact ⟨rfl, rfl⟩
  · rintro ⟨hinput, hlens⟩
    unfold input macInput at hinput
    rw [hsession] at hinput
    have h := append_cancel_left (append_cancel_left hinput)
    obtain ⟨hnonce, h⟩ := littleEndian_append_inj htoken.nonce hother.nonce h
    obtain ⟨hiss, h⟩ := littleEndian_append_inj htoken.issuedAtMillis hother.issuedAtMillis h
    obtain ⟨hcap, h⟩ := littleEndian_append_inj htoken.cap hother.cap h
    obtain ⟨htotal, h⟩ := littleEndian_append_inj htoken.coarsenedTotal hother.coarsenedTotal h
    have hrows := flatMap_entryInput_inj htoken.entries hother.entries hlens h
    rw [contents, hnonce, hiss, SessionWatermark.eq_of_fields hcap hrows htotal]
    rfl

/-- Two tokens of one session with equally long region names and other nonces feed other bytes. -/
theorem contents_eq_iff_nonces :
    let watermark := (SessionWatermark.new 2).record ⟨1, "a"⟩ { version := 5 }
    let token := issue "session" watermark 7 0 [1]
    let other := issue "session" watermark 8 0 [1]
    token.regionLengths = other.regionLengths ∧ token.input [1] ≠ other.input [1] := by
  intro watermark token other
  have hents : ∀ row ∈ watermark.seen.rows, EntryInRange row := by
    intro row hrow
    have hrows : watermark.seen.rows = [(⟨1, "a"⟩, { version := 5 })] := by decide +kernel
    rw [hrows, mem_singleton] at hrow
    subst hrow
    constructor <;> decide
  have htoken : token.InRange := ⟨by decide, by decide, by decide, by decide, hents⟩
  have hother : other.InRange := ⟨by decide, by decide, by decide, by decide, hents⟩
  refine ⟨rfl, fun hinput ↦ ?_⟩
  have hcontents := (contents_eq_iff htoken hother rfl [1]).mpr ⟨hinput, rfl⟩
  exact absurd (congrArg Prod.fst hcontents) (by decide)

/-- Two entries and one entry with a longer region name feed the same bytes, so the token with the
entry gone verifies under the code of the other. -/
theorem macInput_watermark_ambiguous : let stamp : VersionStamp := { version := 5, epoch := 3 }
    let watermark := ((SessionWatermark.new 2).record ⟨1, "a"⟩ stamp).record ⟨2, "b"⟩ stamp
    let region := "a\x05\x00\x00\x00\x00\x00\x00\x00\x03\x00\x00\x00\x00\x00\x00\x00" ++
      "\x00\x00\x00\x00\x00\x00\x00\x00\x00\x00\x00\x00\x00\x00\x00\x00" ++ "\x02\x00\x00\x00b"
    let altered := (SessionWatermark.new 2).record ⟨1, region⟩ stamp
    let token := issue "session" watermark 7 0 [1]
    watermark.seen.rows.length = 2 ∧ altered.seen.rows.length = 1 ∧
      macInput "session" watermark 7 0 [1] = macInput "session" altered 7 0 [1] ∧
      verify { token with watermark := altered } "session" [1] 7 = .ok () := by
  decide +kernel

end HydraCache.Grid
