import HydraCache.Lib.Run

/-!
# Frames from a stream of reads

A stream of frames arrives in reads that know nothing of the frames: a read may end within a frame
or hold several of them. A reader keeps what it has read in a buffer and asks a decoder what to do
with it (`Next`): wait for more, take a frame off the buffer and go on, or close. `Reading.drain`
asks until nothing whole is left, after every read.

A frame is whole if the decoder waits on each of its beginnings and, as long as the buffer is within
a limit, does not look past its end (`Whole`). A reader of whole frames is on its way to what comes
of the frames one by one, whatever the reads, as long as each of them fits (`Toward.read`). A buffer
beyond the limit is refused (`Limited`), so the reads do not matter exactly if every one of them
fits (`serve_outcome_eq_iff`).
-/

set_option autoImplicit false

namespace HydraCache.Lib

open List

variable {σ β ω : Type*}

/-- What is made of a buffer: nothing yet, or what is written and the state after it, with the
number of bytes taken if the reader goes on. -/
inductive Next (σ ω : Type*) where
  | wait
  | take (consumed : ℕ) (effects : List ω) (state : σ)
  | close (effects : List ω) (state : σ)

def Next.effects : Next σ ω → List ω
  | .wait => []
  | .take _ effects _ | .close effects _ => effects

structure Reading (σ β ω : Type*) where
  state : σ
  buffer : List β := []
  effects : List ω := []
  closed : Bool := false

namespace Reading

/-- What can be seen of a reader. -/
def outcome (r : Reading σ β ω) : List ω × σ × Bool :=
  (r.effects, r.state, r.closed)

section

variable (next : σ → List β → Next σ ω)

/-- Frames are taken off the buffer as long as there are any. Every frame takes some of it, so its
length is enough for `fuel`. -/
def drain : (fuel : ℕ) → Reading σ β ω → Reading σ β ω
  | 0, r => r
  | fuel + 1, r =>
    if r.buffer.isEmpty then r
    else
      match next r.state r.buffer with
      | .wait => r
      | .take consumed effects state =>
        drain fuel { r with
          state, buffer := r.buffer.drop consumed, effects := r.effects ++ effects }
      | .close effects state => { r with state, effects := r.effects ++ effects, closed := true }

/-- A read, which a closed reader does not take. -/
def read (r : Reading σ β ω) (bytes : List β) : Reading σ β ω :=
  if r.closed then r
  else drain next (r.buffer ++ bytes).length { r with buffer := r.buffer ++ bytes }

def serve (r : Reading σ β ω) (reads : List (List β)) : Reading σ β ω :=
  reads.foldl (read next) r

/-- The frames one by one. -/
def serveFrames : Reading σ β ω → List (List β) → Reading σ β ω
  | r, [] => r
  | r, frame :: frames =>
    match next r.state frame with
    | .wait => r
    | .take _ effects state => serveFrames { r with state, effects := r.effects ++ effects } frames
    | .close effects state => { r with state, effects := r.effects ++ effects, closed := true }

end

/-- A reader with nothing read. -/
def emptied (r : Reading σ β ω) : Reading σ β ω :=
  { r with buffer := [] }

end Reading

/-! ### Frames -/

/-- Every beginning of the frame is waited on, and the frame is taken whole, whatever comes after
it. -/
structure Whole (next : σ → List β → Next σ ω) (limit : ℕ) (s : σ) (frame : List β) : Prop where
  nonempty : frame ≠ []
  within : frame.length ≤ limit
  waits : ∀ m, 0 < m → m < frame.length → next s (frame.take m) = .wait
  decided : next s frame ≠ .wait
  taken : ∀ consumed effects state, next s frame = .take consumed effects state →
    consumed = frame.length
  same : ∀ more, (frame ++ more).length ≤ limit → next s (frame ++ more) = next s frame

/-- Each frame is whole when it is its turn. -/
def Frames (next : σ → List β → Next σ ω) (limit : ℕ) : σ → List (List β) → Prop
  | _, [] => True
  | s, frame :: frames => Whole next limit s frame ∧
    ∀ consumed effects state, next s frame = .take consumed effects state →
      Frames next limit state frames

/-- A read that fits, or comes after the close. -/
def Fits (limit : ℕ) (r : Reading σ β ω) (bytes : List β) : Prop :=
  r.closed = true ∨ (r.buffer ++ bytes).length ≤ limit

instance Fits.decidable (limit : ℕ) (r : Reading σ β ω) (bytes : List β) :
    Decidable (Fits limit r bytes) :=
  inferInstanceAs (Decidable (_ = true ∨ _ ≤ _))

namespace Reading

variable {next : σ → List β → Next σ ω} {limit : ℕ} {r : Reading σ β ω} {frames : List (List β)}
  {rest : List β}

/-- What is left of the stream: `pending`, of which the buffer has a beginning that is not whole and
`rest` has still to be read. -/
structure Waiting (next : σ → List β → Next σ ω) (limit : ℕ) (r : Reading σ β ω)
    (pending : List (List β)) (rest : List β) : Prop where
  opened : r.closed = false
  frames : Frames next limit r.state pending
  stream : r.buffer ++ rest = pending.flatten
  short : ∀ frame ∈ pending.head?, r.buffer.length < frame.length

/-- The reader is closed with the outcome, or on its way to it. -/
def Toward (next : σ → List β → Next σ ω) (limit : ℕ) (outcome : List ω × σ × Bool) (rest : List β)
    (r : Reading σ β ω) : Prop :=
  r.closed = true ∧ r.outcome = outcome ∨
    ∃ pending, Waiting next limit r pending rest ∧
      (serveFrames next r.emptied pending).outcome = outcome

theorem drain_of_isEmpty (h : r.buffer = []) (fuel : ℕ) : drain next fuel r = r := by
  cases fuel with
  | zero => rfl
  | succ => rw [drain, h, isEmpty_nil, if_pos rfl]

theorem drain_of_ne_nil (h : r.buffer ≠ []) (fuel : ℕ) :
    drain next (fuel + 1) r = match next r.state r.buffer with
      | .wait => r
      | .take consumed effects state =>
        drain next fuel { r with
          state, buffer := r.buffer.drop consumed, effects := r.effects ++ effects }
      | .close effects state =>
        { r with state, effects := r.effects ++ effects, closed := true } := by
  rw [drain, if_neg fun hempty ↦ h (isEmpty_iff.mp hempty)]

variable {frame bytes : List β} {outcome : List ω × σ × Bool} {reads : List (List β)}
  {more : List β}

/-- What a buffer has beyond the first frame. -/
theorem exists_append_of_le (h : bytes ++ rest = frame ++ more)
    (hle : frame.length ≤ bytes.length) : ∃ left, bytes = frame ++ left ∧ left ++ rest = more := by
  obtain ⟨left, rfl⟩ : frame <+: bytes :=
    prefix_of_prefix_length_le (prefix_append frame more) ⟨rest, h⟩ hle
  exact ⟨left, rfl, by simpa using h⟩

theorem eq_take_of_lt (h : bytes ++ rest = frame ++ more)
    (hlt : bytes.length < frame.length) : bytes = frame.take bytes.length := by
  have htake := congrArg (List.take bytes.length) h
  rwa [take_left, take_append_of_le_length (Nat.le_of_lt hlt)] at htake

/-- Assumes: a buffer within the limit. Draining it leads to what comes of the frames. -/
theorem toward_drain {fuel : ℕ} (hopen : r.closed = false)
    (hfrms : Frames next limit r.state frames) (hstream : r.buffer ++ rest = frames.flatten)
    (hlimit : r.buffer.length ≤ limit) (hfuel : r.buffer.length ≤ fuel)
    (hout : (serveFrames next r.emptied frames).outcome = outcome) :
    Toward next limit outcome rest (drain next fuel r) := by
  -- the frames come off the buffer one by one
  induction frames generalizing r fuel with
  | nil =>
    rw [drain_of_isEmpty (append_eq_nil_iff.mp hstream).1]
    exact .inr ⟨[], ⟨hopen, trivial, hstream, (fun _ h ↦ by cases h)⟩, hout⟩
  | cons frame frames ih =>
    obtain ⟨hwhole, hlater⟩ := hfrms
    -- a reader that stays where it is waits for the rest of the frame
    have hstay : r.buffer.length < frame.length → Toward next limit outcome rest r := by
      intro hlt
      refine .inr ⟨frame :: frames, ⟨hopen, ⟨hwhole, hlater⟩, hstream, fun found hfound ↦ ?_⟩, hout⟩
      rwa [← Option.some_inj.mp hfound]
    rw [flatten_cons] at hstream
    by_cases hempty : r.buffer = []
    · rw [drain_of_isEmpty hempty]
      refine hstay ?_
      rw [hempty]
      exact length_pos_of_ne_nil hwhole.nonempty
    have hpos := length_pos_of_ne_nil hempty
    obtain ⟨fuel, rfl⟩ : ∃ fuel', fuel = fuel' + 1 := ⟨fuel - 1, by omega⟩
    rw [drain_of_ne_nil hempty]
    by_cases hlt : r.buffer.length < frame.length
    · have hwait : next r.state r.buffer = .wait := by
        rw [eq_take_of_lt hstream hlt]
        exact hwhole.waits _ hpos hlt
      rw [hwait]
      exact hstay hlt
    · obtain ⟨left, hleft, hrest⟩ := exists_append_of_le hstream (Nat.le_of_not_lt hlt)
      rw [serveFrames] at hout
      have hsame : next r.state r.buffer = next r.emptied.state frame := by
        rw [hleft]
        exact hwhole.same left (hleft ▸ hlimit)
      rw [hsame]
      cases hnext : next r.emptied.state frame with
      | wait => exact absurd hnext hwhole.decided
      | close =>
        rw [hnext] at hout
        exact .inl ⟨rfl, hout⟩
      | take consumed effects state =>
        rw [hnext] at hout
        have hdrop : r.buffer.drop consumed = left := by
          rw [hleft, hwhole.taken consumed effects state hnext, drop_left]
        have hlen : r.buffer.length = frame.length + left.length := by
          rw [hleft, length_append]
        have hframe := length_pos_of_ne_nil hwhole.nonempty
        dsimp only
        rw [hdrop]
        exact ih hopen (hlater consumed effects state hnext) hrest (by dsimp only; omega)
          (by dsimp only; omega) hout

/-! ### Reads -/

/-- Assumes: a read that fits. -/
theorem Toward.read (h : Toward next limit outcome (bytes ++ rest) r) (hfits : Fits limit r bytes) :
    Toward next limit outcome rest (r.read next bytes) := by
  unfold Reading.read
  rcases h with ⟨hclosed, hout⟩ | ⟨pending, hwait, hout⟩
  · rw [if_pos hclosed]
    exact .inl ⟨hclosed, hout⟩
  · have hopen : ¬ r.closed = true := by
      rw [hwait.opened]
      exact Bool.false_ne_true
    rw [if_neg hopen]
    refine toward_drain hwait.opened hwait.frames ?_ (hfits.resolve_left hopen) (Nat.le_refl _) hout
    rw [← hwait.stream]
    exact append_assoc _ _ _

/-- Nothing is left to read: the outcome is reached. -/
theorem Toward.outcome_eq (h : Toward next limit outcome [] r) : r.outcome = outcome := by
  rcases h with ⟨-, hout⟩ | ⟨pending, hwait, hout⟩
  · exact hout
  · cases pending with
    | nil => exact hout
    | cons frame =>
      have hshort := hwait.short frame rfl
      have hlen := congrArg List.length hwait.stream
      rw [append_nil, flatten_cons, length_append] at hlen
      omega

/-- The reader before a stream of frames. -/
theorem toward_init {s : σ} (hfrms : Frames next limit s frames) :
    Toward next limit (serveFrames next ({ state := s } : Reading σ β ω) frames).outcome
      frames.flatten
      ({ state := s } : Reading σ β ω) := by
  refine .inr ⟨frames, ⟨rfl, hfrms, rfl, fun frame hframe ↦ ?_⟩, rfl⟩
  cases frames with
  | nil => cases hframe
  | cons =>
    cases hframe
    exact length_pos_of_ne_nil hfrms.1.nonempty

/-! ### Reads that do not fit -/

/-- A buffer beyond the limit is refused with an effect that no frame begins with. -/
structure Limited (next : σ → List β → Next σ ω) (limit : ℕ) : Prop where
  refused : ∀ s bytes, limit < bytes.length → ∃ effect state, next s bytes = .close [effect] state ∧
    ∀ frame, Whole next limit s frame → ∃ first ∈ (next s frame).effects.head?, first ≠ effect

theorem serve_of_closed (h : r.closed = true) (reads : List (List β)) : r.serve next reads = r := by
  induction reads with
  | nil => rfl
  | cons bytes reads ih =>
    have hread : r.read next bytes = r := by
      rw [Reading.read, if_pos h]
    change (r.read next bytes).serve next reads = r
    rw [hread, ih]

/-- What is done for the frames comes after what was done before. -/
theorem exists_effects_serveFrames (next : σ → List β → Next σ ω) (frames : List (List β))
    (r : Reading σ β ω) :
    ∃ later, (serveFrames next r frames).effects = r.effects ++ later := by
  induction frames generalizing r with
  | nil => exact ⟨[], (append_nil _).symm⟩
  | cons frame _ ih =>
    rw [serveFrames]
    cases next r.state frame with
    | wait => exact ⟨[], (append_nil _).symm⟩
    | close effects => exact ⟨effects, rfl⟩
    | take _ effects state =>
      obtain ⟨later, hlater⟩ := ih { r with state, effects := r.effects ++ effects }
      exact ⟨effects ++ later, hlater.trans (append_assoc _ _ _)⟩

/-- The first frame is what is done next. -/
theorem exists_effects_serveFrames_cons (hdec : next r.state frame ≠ .wait)
    (frames : List (List β)) :
    ∃ later, (serveFrames next r (frame :: frames)).effects =
      r.effects ++ ((next r.state frame).effects ++ later) := by
  rw [serveFrames]
  cases hnext : next r.state frame with
  | wait => exact absurd hnext hdec
  | close => exact ⟨[], by rw [append_nil]; rfl⟩
  | take _ effects state =>
    obtain ⟨later, hlater⟩ := exists_effects_serveFrames next frames
      { r with state, effects := r.effects ++ effects }
    exact ⟨later, hlater.trans (append_assoc _ _ _)⟩

/-- Assumes: a read that does not fit. The outcome is missed. -/
theorem outcome_ne_of_not_fits
    (hlim : Limited next limit) (h : Toward next limit outcome (bytes ++ rest) r)
    (hfits : ¬ Fits limit r bytes) : (r.serve next (bytes :: reads)).outcome ≠ outcome := by
  rw [Fits, not_or, Nat.not_le] at hfits
  obtain ⟨hopen, hlen⟩ := hfits
  rcases h with ⟨hclosed, -⟩ | ⟨pending, hwait, hout⟩
  · exact absurd hclosed hopen
  obtain ⟨effect, state, href, hother⟩ := hlim.refused r.state (r.buffer ++ bytes) hlen
  have hne : r.buffer ++ bytes ≠ [] := ne_nil_of_length_pos (by omega)
  have hread : r.read next bytes =
      { r with
        state, buffer := r.buffer ++ bytes, effects := r.effects ++ [effect], closed := true } := by
    obtain ⟨fuel, hfuel⟩ : ∃ fuel, (r.buffer ++ bytes).length = fuel + 1 :=
      ⟨(r.buffer ++ bytes).length - 1, by omega⟩
    rw [Reading.read, if_neg hopen, hfuel]
    exact (drain_of_ne_nil hne fuel).trans (by rw [href])
  have hserve : r.serve next (bytes :: reads) = r.read next bytes := by
    refine serve_of_closed ?_ reads
    rw [hread]
  -- the buffer has a beginning of the stream, so there is a frame that was to come
  cases pending with
  | nil =>
    have hstream := hwait.stream
    rw [← append_assoc] at hstream
    exact absurd (append_eq_nil_iff.mp hstream).1 hne
  | cons frame later =>
    have hwhole : Whole next limit r.state frame := hwait.frames.1
    obtain ⟨first, hfirst, hdiffers⟩ := hother frame hwhole
    obtain ⟨more, hmore⟩ := exists_effects_serveFrames_cons (r := r.emptied) hwhole.decided later
    intro heq
    rw [hserve, hread, ← hout] at heq
    have heffects : r.effects ++ [effect] = r.effects ++ ((next r.state frame).effects ++ more) :=
      (congrArg Prod.fst heq).trans hmore
    obtain ⟨others, hothers⟩ := List.head?_eq_some_iff.mp hfirst
    rw [hothers] at heffects
    exact hdiffers (List.cons.inj (append_cancel_left heffects)).1.symm

/-- Assumes: a stream of whole frames, read in some way, by a reader that refuses buffers beyond the
limit. What is done is what is done for the frames one by one exactly if every read fits. -/
theorem serve_outcome_eq_iff {s : σ} (hlim : Limited next limit)
    (hfrms : Frames next limit s frames) (hreads : reads.flatten = frames.flatten) :
    (serve next ({ state := s } : Reading σ β ω) reads).outcome =
        (serveFrames next ({ state := s } : Reading σ β ω) frames).outcome ↔
      Along (fun r bytes ↦ some (r.read next bytes)) (Fits limit)
        ({ state := s } : Reading σ β ω) reads := by
  have hinit := toward_init (ω := ω) hfrms
  rw [← hreads] at hinit
  generalize ({ state := s } : Reading σ β ω) = r at hinit ⊢
  generalize (serveFrames next r frames).outcome = outcome at hinit ⊢
  clear hreads
  induction reads generalizing r with
  | nil => exact ⟨fun _ ↦ trivial, fun _ ↦ hinit.outcome_eq⟩
  | cons bytes _ ih =>
    rw [flatten_cons] at hinit
    by_cases hfits : Fits limit r bytes
    · refine (ih _ (hinit.read hfits)).trans ⟨fun h ↦ ⟨hfits, fun r' hr' ↦ ?_⟩, fun h ↦ h.2 _ rfl⟩
      rwa [← Option.some_inj.mp hr']
    · exact ⟨fun h ↦ absurd h (outcome_ne_of_not_fits hlim hinit hfits), fun h ↦ absurd h.1 hfits⟩

end Reading

end HydraCache.Lib
