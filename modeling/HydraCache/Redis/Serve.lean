import HydraCache.Lib.Framing
import HydraCache.Redis.Codec

/-!
# Serving a RESP connection

A connection is read in chunks into a buffer, and after every read commands are taken off the buffer
and executed until none is complete. An error in decoding is written and ends the connection, and so
does QUIT.

The limit on the bytes of a frame is checked against the whole buffer, which holds what is left of
one frame and whatever else arrived with its end. So a read that brings the buffer beyond the limit
is refused although every command in it is within it. `serve_eq_iff` says that nothing else depends
on the reads: for a stream of complete frames within the limit, the commands that are executed and
the replies are those of the frames one by one exactly if every read fits.

Scope. What a command does to the connection and the server, and what is written for it, is the
`Facade`'s; it may be any function of the two. The connection ends for no other reason: it is not
idle for too long, no write fails, and no subscriber lags. The events that a subscribed connection
is sent between its replies are left out. A read has at least one byte.
-/

set_option autoImplicit false

namespace HydraCache.Redis

open Lib List

inductive RespValue where
  | simpleString (text : String)
  | integer (value : ℤ)
  | bulkString (data : Bytes)
  | array (values : List RespValue)
  | map (values : List (RespValue × RespValue))
  | push (values : List RespValue)
  | null
  | error (message : String)

/-- What comes of a command: its replies, the state after it, and whether serving the connection
fails. -/
structure Execution (σ : Type*) where
  replies : List RespValue
  state : σ
  failed : Bool := false

/-- The connection and the server behind it, in one state. -/
structure Facade (σ : Type*) where
  dialect : σ → RespDialect
  execute : RedisCommand → σ → Execution σ
  /-- An error that was written is counted. -/
  recordError : σ → σ

inductive RedisEffect where
  | execute (parsed : RedisCommand)
  | write (dialect : RespDialect) (value : RespValue)

namespace Facade

variable {σ : Type*} (facade : Facade σ) (codec : Codec) (limits : RespDecodeLimits)

def writeError (s : σ) (error : RedisCompatError) : RedisEffect :=
  .write (facade.dialect s) (.error ("ERR " ++ error.message))

/-- One turn of the loop over a buffer that is not empty. Replies are in the dialect after the
command. -/
def next (s : σ) (buffer : Bytes) : Next σ RedisEffect :=
  match decodeRespCommandWithLimits codec limits buffer (facade.dialect s) with
  | .error error => .close [facade.writeError s error] (facade.recordError s)
  | .ok none => .wait
  | .ok (some (parsed, consumed)) =>
    let execution := facade.execute parsed s
    let effects :=
      .execute parsed :: execution.replies.map (.write (facade.dialect execution.state))
    if parsed = .quit ∨ execution.failed then .close effects execution.state
    else .take consumed effects execution.state

/-- Each of the frames is complete, in the dialect in force when it is its turn. -/
def Commands : σ → List Bytes → Prop
  | _, [] => True
  | s, frame :: frames => codec.Complete frame (facade.dialect s) ∧
    ∀ consumed effects state, facade.next codec limits s frame = .take consumed effects state →
      Commands state frames

variable {facade codec limits} {s : σ} {frame : Bytes} {frames : List Bytes}

/-- What is made of a complete frame depends on the frame alone, as long as the buffer is within the
limit. -/
theorem whole_of_complete (hcodec : codec.Lawful) (hcomp : codec.Complete frame (facade.dialect s))
    (hlimit : frame.length ≤ limits.maxFrameBytes) :
    Whole (facade.next codec limits) limits.maxFrameBytes s frame := by
  obtain ⟨hshort, result, hres⟩ := decodeRespCommandWithLimits_of_complete limits hcodec hcomp
  have hframe : decodeRespCommandWithLimits codec limits frame (facade.dialect s) =
      decided result frame.length := by
    have hnil := hres [] (by rwa [append_nil])
    rwa [append_nil] at hnil
  refine ⟨hcomp.ne_nil hcodec, hlimit, fun m _ hm ↦ ?_, ?_, fun consumed effects state hnext ↦ ?_,
    fun more hmore ↦ ?_⟩
  · rw [next, hshort m hm (by omega)]
  · rw [next, hframe]
    cases result with
    | error => exact fun h ↦ by cases h
    | ok =>
      dsimp only [decided]
      split_ifs <;> exact fun h ↦ by cases h
  · rw [next, hframe] at hnext
    cases result with
    | error => cases hnext
    | ok =>
      dsimp only [decided] at hnext
      split_ifs at hnext
      exact (Next.take.inj hnext).1.symm
  · rw [next, next, hframe, hres more hmore]

theorem frames_of_commands (hcodec : codec.Lawful) (hcmds : facade.Commands codec limits s frames)
    (hlimit : ∀ frame ∈ frames, frame.length ≤ limits.maxFrameBytes) :
    Frames (facade.next codec limits) limits.maxFrameBytes s frames := by
  induction frames generalizing s with
  | nil => trivial
  | cons frame _ ih =>
    refine ⟨whole_of_complete hcodec hcmds.1 (hlimit frame mem_cons_self), ?_⟩
    intro consumed effects state hnext
    exact ih (hcmds.2 consumed effects state hnext) fun later hlater ↦
      hlimit later (mem_cons_of_mem frame hlater)

/-- A buffer beyond the limit is refused with an error that no frame within it is answered with. -/
theorem limited_next : Reading.Limited (facade.next codec limits) limits.maxFrameBytes := by
  refine ⟨fun s bytes hlen ↦
    ⟨facade.writeError s (.frameTooLarge bytes.length limits.maxFrameBytes),
    facade.recordError s, ?_, fun frame hwhole ↦ ?_⟩⟩
  · rw [next, decodeRespCommandWithLimits_of_lt hlen]
  · have hdec := hwhole.decided
    rw [next] at hdec ⊢
    cases hres : decodeRespCommandWithLimits codec limits frame (facade.dialect s) with
    | error =>
      refine ⟨_, rfl, fun heq ↦ ?_⟩
      have htext := RespValue.error.inj (RedisEffect.write.inj heq).2
      exact message_ne_frameTooLarge (ne_frameTooLarge_of_le hwhole.within hres)
        (String.append_right_inj "ERR " |>.mp htext)
    | ok found =>
      cases found with
      | none =>
        rw [hres] at hdec
        exact absurd rfl hdec
      | some =>
        dsimp only
        split_ifs
        · exact ⟨_, rfl, fun heq ↦ by cases heq⟩
        · exact ⟨_, rfl, fun heq ↦ by cases heq⟩

/-- Assumes: lawful decoders, and a stream of complete frames, each within the limit of a frame,
that is read in some way. The commands that are executed, the replies and the state in the end are
those of the frames one by one exactly if no read brings the buffer beyond the limit. -/
theorem serve_eq_iff {frames reads : List Bytes} (hcodec : codec.Lawful)
    (hcommands : facade.Commands codec limits s frames)
    (hlimit : ∀ frame ∈ frames, frame.length ≤ limits.maxFrameBytes)
    (hreads : reads.flatten = frames.flatten) :
    (Reading.serve (facade.next codec limits) { state := s } reads).outcome =
        (Reading.serveFrames (facade.next codec limits) { state := s } frames).outcome ↔
      Along (fun r bytes ↦ some (r.read (facade.next codec limits) bytes))
        (Fits limits.maxFrameBytes)
        { state := s } reads :=
  Reading.serve_outcome_eq_iff limited_next (frames_of_commands hcodec hcommands hlimit) hreads

/-- Frames that are complete in every dialect the connection can have. -/
theorem commands_of_forall
    (h : ∀ frame ∈ frames, ∀ s, codec.Complete frame (facade.dialect s)) (s : σ) :
    facade.Commands codec limits s frames := by
  induction frames generalizing s with
  | nil => trivial
  | cons frame _ ih =>
    exact ⟨h frame mem_cons_self s, fun _ _ state _ ↦
      ih (fun later hlater ↦ h later (mem_cons_of_mem frame hlater)) state⟩

/-- A server that knows PING and QUIT and counts what it answered. -/
def pingFacade : Facade ℕ where
  dialect _ := .resp2
  execute
    | .ping none, answered => ⟨[.simpleString "PONG"], answered + 1, false⟩
    | .quit, answered => ⟨[.simpleString "OK"], answered + 1, false⟩
    | _, answered => ⟨[.error "ERR unsupported command"], answered + 1, false⟩
  recordError answered := answered

def pingFrame : Bytes :=
  utf8 "*1\r\n$4\r\nPING\r\n"

def executed : RedisEffect → Option RedisCommand
  | .execute parsed => some parsed
  | .write .. => none

/-- The commands that were executed, the count of answers, and whether the connection was closed. -/
def seen (r : Reading ℕ UInt8 RedisEffect) : List RedisCommand × ℕ × Bool :=
  (r.effects.filterMap executed, r.state, r.closed)

/-- Two commands of 14 bytes in three reads, with a limit of 20. -/
theorem serve_eq_pingFrames :
    (Reading.serve (pingFacade.next resp2Codec { maxFrameBytes := 20 }) { state := 0 }
        [pingFrame.take 10, pingFrame.drop 10 ++ pingFrame.take 6, pingFrame.drop 6]).outcome =
      (Reading.serveFrames (pingFacade.next resp2Codec { maxFrameBytes := 20 }) { state := 0 }
        [pingFrame, pingFrame]).outcome :=
  (serve_eq_iff lawful_resp2Codec (commands_of_forall (fun frame hframe _ ↦ by
      rw [eq_of_mem_replicate (n := 2) hframe]
      exact ⟨.array [.bulkString (utf8 "PING")], rfl⟩) 0)
    (by decide +kernel) (by decide +kernel)).mpr (by decide +kernel)

/-- In one read they are refused, and in two they are answered. -/
theorem pipelined_commands_refused :
    seen (Reading.serve (pingFacade.next resp2Codec { maxFrameBytes := 20 }) { state := 0 }
        [pingFrame ++ pingFrame]) = ([], 0, true) ∧
      seen (Reading.serve (pingFacade.next resp2Codec { maxFrameBytes := 20 }) { state := 0 }
        [pingFrame, pingFrame]) = ([.ping none, .ping none], 2, false) := by
  decide +kernel

end Facade

end HydraCache.Redis
