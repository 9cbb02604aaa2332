import HydraCache.Lib.Bytes
import HydraCache.Lib.Decoder
import HydraCache.Lib.Text

/-!
# RESP commands

A command of a Redis client is an array of strings in one of two dialects of RESP. The bytes are
taken apart by the decoders of the protocol library (`Codec`), of which it is known that they are
incremental (`Codec.Lawful`). The frame then passes the limits on its elements and strings, and its
strings are read as a command (`commandFromArgs`); a verb that is not known, or has the wrong number
of arguments, is a command too.

The limit on the bytes of a frame is checked before any of this, and against everything that was
passed in (`decodeRespCommandWithLimits`).

Scope. The payloads of RESP3 frames that no command can have are left out. `resp2Codec` decodes the
frames of RESP2, and as RESP3 the arrays and strings that both have.
-/

set_option autoImplicit false

namespace HydraCache.Redis

open Lib

/-! ### Limits and errors -/

inductive RespDialect where
  | resp2
  | resp3
deriving DecidableEq

structure RespDecodeLimits where
  maxFrameBytes : ℕ := 1024 * 1024
  maxArrayElements : ℕ := 1024
  maxBulkStringBytes : ℕ := 16 * 1024 * 1024
deriving DecidableEq

/-- What is wrong with a frame as such. -/
inductive FrameFault where
  | unsupportedResp3Attributes
  | arrayTooLarge (actual max : ℕ)
  | bulkStringTooLarge (actual max : ℕ)
  | nonArrayCommand
  | emptyCommand
  | nonStringArgument
  | nonUtf8Verb
deriving DecidableEq

def FrameFault.message : FrameFault → String
  | unsupportedResp3Attributes => "RESP3 attributes are not supported on command frames"
  | arrayTooLarge actual max =>
    "RESP array too large: " ++ decimal actual ++ " elements exceeds " ++ decimal max ++ " elements"
  | bulkStringTooLarge actual max =>
    "RESP bulk string too large: " ++ decimal actual ++ " bytes exceeds " ++ decimal max ++ " bytes"
  | nonArrayCommand => "Redis command must be a RESP array"
  | emptyCommand => "Redis command array is empty"
  | nonStringArgument => "Redis command argument must be a bulk or simple string"
  | nonUtf8Verb => "Redis command verb must be UTF-8"

inductive RedisCompatError where
  | decode (error : String)
  | frameTooLarge (actual max : ℕ)
  | fault (fault : FrameFault)
deriving DecidableEq

def RedisCompatError.message : RedisCompatError → String
  | decode error => "RESP decode error: " ++ error
  | frameTooLarge actual max =>
    "RESP frame too large: " ++ decimal actual ++ " bytes exceeds " ++ decimal max ++ " bytes"
  | fault found => found.message

def checkElements (limits : RespDecodeLimits) (actual : ℕ) : Except FrameFault Unit :=
  if actual > limits.maxArrayElements then .error (.arrayTooLarge actual limits.maxArrayElements)
    else .ok ()

def checkString (limits : RespDecodeLimits) (actual : ℕ) : Except FrameFault Unit :=
  if actual > limits.maxBulkStringBytes then
    .error (.bulkStringTooLarge actual limits.maxBulkStringBytes)
  else .ok ()

/-! ### RESP2 frames -/

inductive Resp2Frame where
  | simpleString (data : Bytes)
  | error (message : String)
  | integer (value : ℤ)
  | bulkString (data : Bytes)
  | array (items : List Resp2Frame)
  | null

mutual

def enforceResp2FrameLimits (limits : RespDecodeLimits) : Resp2Frame → Except FrameFault Unit
  | .array items => do
    checkElements limits items.length
    enforceResp2Items limits items
  | .bulkString data | .simpleString data => checkString limits data.length
  | .error message => checkString limits (utf8 message).length
  | .integer _ | .null => .ok ()

def enforceResp2Items (limits : RespDecodeLimits) : List Resp2Frame → Except FrameFault Unit
  | [] => .ok ()
  | item :: items => do
    enforceResp2FrameLimits limits item
    enforceResp2Items limits items

end

def resp2FrameBytes : Resp2Frame → Except FrameFault Bytes
  | .bulkString data | .simpleString data => .ok data
  | _ => .error .nonStringArgument

/-! ### RESP3 frames -/

mutual

/-- A frame with the attributes that precede it. -/
inductive Resp3Frame where
  | mk (attributes : Option (List (Resp3Frame × Resp3Frame))) (payload : Resp3Payload)

inductive Resp3Payload where
  | array (data : List Resp3Frame)
  | push (data : List Resp3Frame)
  | set (data : List Resp3Frame)
  | map (data : List (Resp3Frame × Resp3Frame))
  | blobString (data : Bytes)
  | simpleString (data : Bytes)
  | blobError (data : Bytes)
  | bigNumber (data : Bytes)
  | verbatimString (data : Bytes)
  | chunkedString (data : Bytes)
  | simpleError (data : String)
  | number (data : ℤ)
  | double
  | boolean
  | null
  | hello

end

mutual

/-- Attributes count against the limits, and are refused after the frame itself passed them. -/
def enforceResp3FrameLimits (limits : RespDecodeLimits) : Resp3Frame → Except FrameFault Unit
  | .mk (some attributes) payload => do
    checkElements limits (2 * attributes.length)
    enforceResp3Pairs limits attributes
    enforceResp3Payload limits payload
    .error .unsupportedResp3Attributes
  | .mk none payload => enforceResp3Payload limits payload

def enforceResp3Payload (limits : RespDecodeLimits) : Resp3Payload → Except FrameFault Unit
  | .array data | .push data | .set data => do
    checkElements limits data.length
    enforceResp3Items limits data
  | .map data => do
    checkElements limits (2 * data.length)
    enforceResp3Pairs limits data
  | .blobString data | .simpleString data | .blobError data | .bigNumber data | .verbatimString data
  | .chunkedString data => checkString limits data.length
  | .simpleError data => checkString limits (utf8 data).length
  | .number _ | .double | .boolean | .null | .hello => .ok ()

def enforceResp3Items (limits : RespDecodeLimits) : List Resp3Frame → Except FrameFault Unit
  | [] => .ok ()
  | item :: items => do
    enforceResp3FrameLimits limits item
    enforceResp3Items limits items

def enforceResp3Pairs (limits : RespDecodeLimits) : List (Resp3Frame × Resp3Frame) →
    Except FrameFault Unit
  | [] => .ok ()
  | (key, value) :: pairs => do
    enforceResp3FrameLimits limits key
    enforceResp3FrameLimits limits value
    enforceResp3Pairs limits pairs

end

/-- A number is the text of it. -/
def resp3FrameBytes : Resp3Frame → Except FrameFault Bytes
  | .mk _ (.blobString data) | .mk _ (.simpleString data) | .mk _ (.verbatimString data) => .ok data
  | .mk _ (.number data) =>
    .ok (utf8 (if data < 0 then "-" ++ decimal data.natAbs else decimal data.natAbs))
  | _ => .error .nonStringArgument

/-! ### Commands -/

inductive RedisTtlUnit where
  | seconds
  | milliseconds
deriving DecidableEq

structure RedisAuthAttempt where
  username : Option Bytes
  password : Bytes
deriving DecidableEq

inductive RedisCommand where
  | ping (message : Option Bytes)
  | echo (message : Bytes)
  | quit
  | hello (version : ℕ) (auth : Option RedisAuthAttempt)
  | auth (username : Option Bytes) (password : Bytes)
  | clientSetName (name : Bytes)
  | clientSetInfo (args : List Bytes)
  | command
  | subscribe (channels : List Bytes)
  | unsubscribe (channels : List Bytes)
  | psubscribe (patterns : List Bytes)
  | punsubscribe (patterns : List Bytes)
  | info («section» : Option Bytes)
  | select (db : Bytes)
  | type (key : Bytes)
  | get (key : Bytes)
  | set (key value : Bytes) (options : List Bytes)
  | mset (entries : List (Bytes × Bytes))
  | mget (keys : List Bytes)
  | del (keys : List Bytes)
  | exists (keys : List Bytes)
  | expire (key ttl : Bytes) (unit : RedisTtlUnit)
  | persist (key : Bytes)
  | ttl (key : Bytes) (unit : RedisTtlUnit)
  | eval (script numkeys : Bytes) (keysAndArgs : List Bytes)
  | evalSha (sha numkeys : Bytes) (keysAndArgs : List Bytes)
  | scriptLoad (script : Bytes)
  | scriptExists (shas : List Bytes)
  | hcStats
  | hcDiagnostics
  | hcInvalidate (key : Bytes)
  | hcNamespace (ns : Option Bytes)
  | hcTag (key : Bytes) (tags : List Bytes)
  | hcSetTags (key : Bytes) (tags : List Bytes)
  | hcInvalidateTag (tag : Bytes)
  | adminDisabled (command : String) (args : List Bytes)
  | wrongArity (command : String) (args : List Bytes)
  | unsupported (verb : String) (args : List Bytes)
deriving DecidableEq

def asciiUpper (byte : UInt8) : UInt8 :=
  if 97 ≤ byte ∧ byte ≤ 122 then byte - 32 else byte

def eqIgnoreAsciiCase (bytes : Bytes) (text : String) : Bool :=
  bytes.map asciiUpper = (utf8 text).map asciiUpper

/-- The options of HELLO one after another; the last credentials count. -/
def parseHelloOptions (version : ℕ) (args : List Bytes) (auth : Option RedisAuthAttempt) :
    List Bytes → RedisCommand
  | [] => .hello version auth
  | option :: rest =>
    if eqIgnoreAsciiCase option "AUTH" then
      match rest with
      | username :: password :: rest =>
        parseHelloOptions version args (some ⟨some username, password⟩) rest
      | _ => .wrongArity "HELLO" args
    else if eqIgnoreAsciiCase option "SETNAME" then
      match rest with
      | _ :: rest => parseHelloOptions version args auth rest
      | [] => .wrongArity "HELLO" args
    else .unsupported "HELLO" args

/-- A version that is not a number of one byte is 0. -/
def helloVersion (value : Bytes) : ℕ :=
  match (ofUtf8 value).map parseWord with
  | some (.ok version) => if version ≤ 255 then version else 0
  | _ => 0

def parseHelloCommand : List Bytes → RedisCommand
  | [] => .hello 0 none
  | version :: args => parseHelloOptions (helloVersion version) args none args

section

variable (fromUtf8Lossy : Bytes → String)

def parseClientCommand : List Bytes → RedisCommand
  | [] => .unsupported "CLIENT" []
  | subcommand :: args =>
    match (fromUtf8Lossy subcommand).toUpper, args with
    | "SETNAME", [name] => .clientSetName name
    | "SETINFO", args => .clientSetInfo args
    | verb, args => .unsupported ("CLIENT " ++ verb) (subcommand :: args)

def parseScriptCommand : List Bytes → RedisCommand
  | [] => .unsupported "SCRIPT" []
  | subcommand :: args =>
    match (fromUtf8Lossy subcommand).toUpper, args with
    | "LOAD", [script] => .scriptLoad script
    | "EXISTS", sha :: shas => .scriptExists (sha :: shas)
    | "LOAD", args => .wrongArity "SCRIPT LOAD" (subcommand :: args)
    | "EXISTS", args => .wrongArity "SCRIPT EXISTS" (subcommand :: args)
    | verb, args => .unsupported ("SCRIPT " ++ verb) (subcommand :: args)

def inPairs : List Bytes → List (Bytes × Bytes)
  | key :: value :: rest => (key, value) :: inPairs rest
  | _ => []

/-- The command of a verb in capitals with its arguments. -/
def commandOfVerb (verb : String) (args : List Bytes) : RedisCommand :=
  match verb with
  | "PING" =>
    match args with
    | [] => .ping none
    | [message] => .ping (some message)
    | _ => .unsupported verb args
  | "ECHO" =>
    match args with
    | [message] => .echo message
    | _ => .unsupported verb args
  | "QUIT" => .quit
  | "HELLO" => parseHelloCommand args
  | "AUTH" =>
    match args with
    | [password] => .auth none password
    | [username, password] => .auth (some username) password
    | _ => .wrongArity verb args
  | "CLIENT" => parseClientCommand fromUtf8Lossy args
  | "COMMAND" => .command
  | "SUBSCRIBE" => if args.isEmpty then .wrongArity verb args else .subscribe args
  | "PSUBSCRIBE" => if args.isEmpty then .wrongArity verb args else .psubscribe args
  | "UNSUBSCRIBE" => .unsubscribe args
  | "PUNSUBSCRIBE" => .punsubscribe args
  | "INFO" =>
    match args with
    | [] => .info none
    | [found] => .info (some found)
    | _ => .wrongArity verb args
  | "SELECT" =>
    match args with
    | [db] => .select db
    | _ => .wrongArity verb args
  | "TYPE" =>
    match args with
    | [key] => .type key
    | _ => .wrongArity verb args
  | "GET" =>
    match args with
    | [key] => .get key
    | _ => .unsupported verb args
  | "SET" =>
    match args with
    | key :: value :: options => .set key value options
    | _ => .wrongArity verb args
  | "SETEX" =>
    match args with
    | [key, ttl, value] => .set key value [utf8 "EX", ttl]
    | _ => .wrongArity verb args
  | "PSETEX" =>
    match args with
    | [key, ttl, value] => .set key value [utf8 "PX", ttl]
    | _ => .wrongArity verb args
  | "MSET" =>
    if ¬ args.isEmpty ∧ args.length % 2 = 0 then .mset (inPairs args) else .wrongArity verb args
  | "MGET" => if args.isEmpty then .unsupported verb args else .mget args
  | "DEL" => if args.isEmpty then .unsupported verb args else .del args
  | "EXISTS" => if args.isEmpty then .unsupported verb args else .exists args
  | "EXPIRE" =>
    match args with
    | [key, ttl] => .expire key ttl .seconds
    | _ => .wrongArity verb args
  | "PEXPIRE" =>
    match args with
    | [key, ttl] => .expire key ttl .milliseconds
    | _ => .wrongArity verb args
  | "PERSIST" =>
    match args with
    | [key] => .persist key
    | _ => .wrongArity verb args
  | "TTL" =>
    match args with
    | [key] => .ttl key .seconds
    | _ => .wrongArity verb args
  | "PTTL" =>
    match args with
    | [key] => .ttl key .milliseconds
    | _ => .wrongArity verb args
  | "EVAL" =>
    match args with
    | script :: numkeys :: keysAndArgs => .eval script numkeys keysAndArgs
    | _ => .wrongArity verb args
  | "EVALSHA" =>
    match args with
    | sha :: numkeys :: keysAndArgs => .evalSha sha numkeys keysAndArgs
    | _ => .wrongArity verb args
  | "SCRIPT" => parseScriptCommand fromUtf8Lossy args
  | "HC.STATS" => if args.isEmpty then .hcStats else .unsupported verb args
  | "HC.DIAGNOSTICS" => if args.isEmpty then .hcDiagnostics else .unsupported verb args
  | "HC.INVALIDATE" =>
    match args with
    | [key] => .hcInvalidate key
    | _ => .unsupported verb args
  | "HC.NAMESPACE" =>
    match args with
    | [] => .hcNamespace none
    | [ns] => .hcNamespace (some ns)
    | _ => .wrongArity verb args
  | "HC.TAG" =>
    match args with
    | key :: tag :: tags => .hcTag key (tag :: tags)
    | _ => .wrongArity verb args
  | "HC.SETTAGS" =>
    match args with
    | key :: tag :: tags => .hcSetTags key (tag :: tags)
    | _ => .wrongArity verb args
  | "HC.INVALIDATE_TAG" =>
    match args with
    | [tag] => .hcInvalidateTag tag
    | _ => .wrongArity verb args
  | "CONFIG" | "FLUSHDB" | "FLUSHALL" => .adminDisabled verb args
  | _ => .unsupported verb args

def commandFromArgs : List Bytes → Except FrameFault RedisCommand
  | [] => .error .emptyCommand
  | verb :: args =>
    match ofUtf8 verb with
    | none => .error .nonUtf8Verb
    | some verb => .ok (commandOfVerb fromUtf8Lossy verb.toUpper args)

end

/-! ### Decoding -/

/-- The decoders of the protocol library, and the reading of bytes that may not be UTF-8. -/
structure Codec where
  decodeResp2 : Decoder UInt8 String Resp2Frame
  decodeResp3 : Decoder UInt8 String Resp3Frame
  fromUtf8Lossy : Bytes → String

/-- A decoder returns a frame with the bytes it takes, and nothing as long as the frame is not
complete. -/
structure Codec.Lawful (codec : Codec) : Prop where
  resp2 : Incremental codec.decodeResp2
  resp3 : Incremental codec.decodeResp3
  resp2_nil : codec.decodeResp2 [] = .ok none
  resp3_nil : codec.decodeResp3 [] = .ok none

section

variable (codec : Codec)

def commandFromResp2Frame : Resp2Frame → Except FrameFault RedisCommand
  | .array frames => do commandFromArgs codec.fromUtf8Lossy (← frames.mapM resp2FrameBytes)
  | _ => .error .nonArrayCommand

def commandFromResp3Frame : Resp3Frame → Except FrameFault RedisCommand
  | .mk _ (.array data) => do commandFromArgs codec.fromUtf8Lossy (← data.mapM resp3FrameBytes)
  | _ => .error .nonArrayCommand

section

variable (limits : RespDecodeLimits)

/-- The command of a frame that is within the limits. -/
def commandOfResp2 (frame : Resp2Frame) : Except FrameFault RedisCommand := do
  enforceResp2FrameLimits limits frame
  commandFromResp2Frame codec frame

def commandOfResp3 (frame : Resp3Frame) : Except FrameFault RedisCommand := do
  enforceResp3FrameLimits limits frame
  commandFromResp3Frame codec frame

/-- What becomes of a frame: its command, or what is wrong with it. -/
def decided (result : Except FrameFault RedisCommand) (consumed : ℕ) :
    Except RedisCompatError (Option (RedisCommand × ℕ)) :=
  match result with
  | .error found => .error (.fault found)
  | .ok parsed => .ok (some (parsed, consumed))

/-- One frame from the input, as a command. The input as a whole has to be within the limit of a
frame. -/
def decodeCommandWithLimits {φ : Type} (decode : Decoder UInt8 String φ)
    (commandOf : φ → Except FrameFault RedisCommand) (limits : RespDecodeLimits) (input : Bytes) :
    Except RedisCompatError (Option (RedisCommand × ℕ)) :=
  if input.length > limits.maxFrameBytes then
    .error (.frameTooLarge input.length limits.maxFrameBytes)
  else
    match decode input with
    | .error error => .error (.decode error)
    | .ok none => .ok none
    | .ok (some (frame, consumed)) => decided (commandOf frame) consumed

def decodeResp2CommandWithLimits (input : Bytes) :
    Except RedisCompatError (Option (RedisCommand × ℕ)) :=
  decodeCommandWithLimits codec.decodeResp2 (commandOfResp2 codec limits) limits input

def decodeResp3CommandWithLimits (input : Bytes) :
    Except RedisCompatError (Option (RedisCommand × ℕ)) :=
  decodeCommandWithLimits codec.decodeResp3 (commandOfResp3 codec limits) limits input

def decodeRespCommandWithLimits (input : Bytes) :
    RespDialect → Except RedisCompatError (Option (RedisCommand × ℕ))
  | .resp2 => decodeResp2CommandWithLimits codec limits input
  | .resp3 => decodeResp3CommandWithLimits codec limits input

end

/-- The bytes are one frame of the dialect. -/
def Codec.Complete (bytes : Bytes) : RespDialect → Prop
  | .resp2 => ∃ frame, codec.decodeResp2 bytes = .ok (some (frame, bytes.length))
  | .resp3 => ∃ frame, codec.decodeResp3 bytes = .ok (some (frame, bytes.length))

end

/-! ### What a complete frame decodes to -/

variable {dialect : RespDialect}

section Complete

variable {codec : Codec} {limits : RespDecodeLimits} {bytes : Bytes}

/-- Assumes: a complete frame. Less of it is waited on, and with more after it the outcome is the
same as long as all of it is within the limit. -/
theorem decodeCommandWithLimits_of_complete {φ : Type} {decode : Decoder UInt8 String φ}
    {commandOf : φ → Except FrameFault RedisCommand} {frame : φ} (hdec : Incremental decode)
    (hframe : decode bytes = .ok (some (frame, bytes.length))) :
    (∀ m < bytes.length, m ≤ limits.maxFrameBytes →
      decodeCommandWithLimits decode commandOf limits (bytes.take m) = .ok none) ∧
    ∀ more, (bytes ++ more).length ≤ limits.maxFrameBytes →
      decodeCommandWithLimits decode commandOf limits (bytes ++ more) =
        decided (commandOf frame) bytes.length := by
  refine ⟨fun m hm hlimit ↦ ?_, fun more hlimit ↦ ?_⟩
  · have hlen : ¬ (bytes.take m).length > limits.maxFrameBytes := by
      rw [List.length_take]
      omega
    rw [decodeCommandWithLimits, if_neg hlen, hdec.short hframe m hm]
  · rw [decodeCommandWithLimits, if_neg (Nat.not_lt_of_le hlimit), hdec.extend hframe more]

theorem decodeRespCommandWithLimits_of_complete (limits : RespDecodeLimits) (hcodec : codec.Lawful)
    (hcomp : codec.Complete bytes dialect) :
    (∀ m < bytes.length, m ≤ limits.maxFrameBytes →
      decodeRespCommandWithLimits codec limits (bytes.take m) dialect = .ok none) ∧
    ∃ result, ∀ more, (bytes ++ more).length ≤ limits.maxFrameBytes →
      decodeRespCommandWithLimits codec limits (bytes ++ more) dialect =
        decided result bytes.length := by
  cases dialect with
  | resp2 =>
    obtain ⟨frame, hframe⟩ := hcomp
    obtain ⟨hshort, hmore⟩ := decodeCommandWithLimits_of_complete hcodec.resp2 hframe
    exact ⟨hshort, _, hmore⟩
  | resp3 =>
    obtain ⟨frame, hframe⟩ := hcomp
    obtain ⟨hshort, hmore⟩ := decodeCommandWithLimits_of_complete hcodec.resp3 hframe
    exact ⟨hshort, _, hmore⟩

theorem Codec.Complete.ne_nil (hcodec : codec.Lawful)
    (hcomp : codec.Complete bytes dialect) : bytes ≠ [] := by
  rintro rfl
  cases dialect with
  | resp2 =>
    obtain ⟨frame, hframe⟩ := hcomp
    cases hcodec.resp2_nil.symm.trans hframe
  | resp3 =>
    obtain ⟨frame, hframe⟩ := hcomp
    cases hcodec.resp3_nil.symm.trans hframe

end Complete

variable {limits : RespDecodeLimits}

/-- Input beyond the limit is refused whatever it holds. -/
theorem decodeRespCommandWithLimits_of_lt {codec : Codec} {input : Bytes}
    (h : limits.maxFrameBytes < input.length) (dialect : RespDialect) :
    decodeRespCommandWithLimits codec limits input dialect =
      .error (.frameTooLarge input.length limits.maxFrameBytes) := by
  cases dialect with
  | resp2 | resp3 => exact if_pos h

theorem getElem?_toList_append (text rest : String) {n : ℕ} (h : n < text.toList.length) :
    (text ++ rest).toList[n]? = text.toList[n]? := by
  rw [String.toList_append, List.getElem?_append_left h]

variable {error : RedisCompatError}

/-- The text of no other error is that of a frame that is too large: they differ in the sixth
letter. -/
theorem message_ne_frameTooLarge {actual max : ℕ}
    (h : ∀ actual max, error ≠ .frameTooLarge actual max) :
    error.message ≠ (RedisCompatError.frameTooLarge actual max).message := by
  intro heq
  have hchar := congrArg (fun text : String ↦ text.toList[5]?) heq
  dsimp only [RedisCompatError.message] at hchar
  rw [String.append_assoc, String.append_assoc, String.append_assoc,
    getElem?_toList_append "RESP frame too large: " _ (by decide)] at hchar
  cases error with
  | frameTooLarge actual max => exact h actual max rfl
  | decode =>
    rw [getElem?_toList_append _ _ (by decide)] at hchar
    revert hchar
    decide
  | fault found =>
    cases found with
    | arrayTooLarge | bulkStringTooLarge =>
      dsimp only [FrameFault.message] at hchar
      rw [String.append_assoc, String.append_assoc, String.append_assoc,
        getElem?_toList_append _ _ (by decide)] at hchar
      revert hchar
      decide
    | unsupportedResp3Attributes | nonArrayCommand | emptyCommand | nonStringArgument
      | nonUtf8Verb =>
      revert hchar
      decide

/-- Assumes: input within the limit. It is not refused for its length. -/
theorem ne_frameTooLarge_of_le {codec : Codec} {input : Bytes}
    (hlimit : input.length ≤ limits.maxFrameBytes)
    (h : decodeRespCommandWithLimits codec limits input dialect = .error error) (actual max : ℕ) :
    error ≠ .frameTooLarge actual max := by
  have hcommon : ∀ {φ : Type} (decode : Decoder UInt8 String φ) commandOf,
      decodeCommandWithLimits decode commandOf limits input = .error error →
        error ≠ .frameTooLarge actual max := by
    intro φ decode commandOf h
    rw [decodeCommandWithLimits, if_neg (Nat.not_lt_of_le hlimit)] at h
    split at h
    · cases h
      exact fun heq ↦ by cases heq
    · cases h
    · unfold decided at h
      split at h
      · cases h
        exact fun heq ↦ by cases heq
      · cases h
  cases dialect with
  | resp2 | resp3 => exact hcommon _ _ h

/-! ### A codec -/

/-- The digits of a length. -/
def readLength (digits : Bytes) : Option ℕ :=
  if digits.isEmpty then none
  else digits.foldl (fun value digit ↦ value.bind fun value ↦
    if 48 ≤ digit ∧ digit ≤ 57 then some (10 * value + (digit.toNat - 48)) else none) (some 0)

/-- A whole number with or without a sign. -/
def readInteger : Bytes → Option ℤ
  | 45 :: digits => (readLength digits).map fun value ↦ -(value : ℤ)
  | digits => (readLength digits).map fun value ↦ (value : ℤ)

/-- What follows a line: more lines if it announces a string or an array. The items of an array are
decoded by `items`. -/
def resp2Rest (items : Decoder UInt8 String Resp2Frame) : Bytes → Decoder UInt8 String Resp2Frame
  | 43 :: data => .pure (.simpleString data)
  | 45 :: data =>
    match ofUtf8 data with
    | some message => .pure (.error message)
    | none => .fail "invalid UTF-8"
  | 58 :: digits =>
    match readInteger digits with
    | some value => .pure (.integer value)
    | none => .fail "invalid integer"
  | 36 :: digits =>
    if digits = [45, 49] then .pure .null
    else
      match readLength digits with
      | some length => .bind (.take length) fun data ↦ .bind (.take 2) fun ending ↦
        if ending = [13, 10] then .pure (.bulkString data) else .fail "invalid terminator"
      | none => .fail "invalid length"
  | 42 :: digits =>
    if digits = [45, 49] then .pure .null
    else
      match readLength digits with
      | some length => .bind (.many items length) fun frames ↦ .pure (.array frames)
      | none => .fail "invalid length"
  | _ => .fail "invalid kind"

/-- A frame of RESP2 whose arrays are nested at most so deep. -/
def resp2Decoder : (depth : ℕ) → Decoder UInt8 String Resp2Frame
  | 0 => .fail "nested too deep"
  | depth + 1 => .bind (.line 13 10) (resp2Rest (resp2Decoder depth))

theorem incremental_resp2Rest {items : Decoder UInt8 String Resp2Frame} (h : Incremental items)
    (line : Bytes) :
    Incremental (resp2Rest items line) := by
  unfold resp2Rest
  split
  · exact incremental_pure _
  · split
    · exact incremental_pure _
    · exact incremental_fail _
  · split
    · exact incremental_pure _
    · exact incremental_fail _
  · split_ifs
    · exact incremental_pure _
    · split
      · refine incremental_bind (incremental_take _) fun data ↦
          incremental_bind (incremental_take 2) fun ending ↦ ?_
        split_ifs
        · exact incremental_pure _
        · exact incremental_fail _
      · exact incremental_fail _
  · split_ifs
    · exact incremental_pure _
    · split
      · exact incremental_bind (incremental_many h _) fun frames ↦ incremental_pure _
      · exact incremental_fail _
  · exact incremental_fail _

theorem incremental_resp2Decoder (depth : ℕ) : Incremental (resp2Decoder depth) := by
  induction depth with
  | zero => exact incremental_fail _
  | succ _ ih => exact incremental_bind (incremental_line 13 10) (incremental_resp2Rest ih)

def stringToResp3 : Resp2Frame → Option Resp3Frame
  | .bulkString data => some (.mk none (.blobString data))
  | .simpleString data => some (.mk none (.simpleString data))
  | _ => none

/-- An array of strings is a frame of RESP3 too. -/
def toResp3 : Resp2Frame → Option Resp3Frame
  | .array items => (items.mapM stringToResp3).map fun data ↦ .mk none (.array data)
  | frame => stringToResp3 frame

/-- Text of ASCII characters; other bytes are replaced. -/
def asciiLossy (bytes : Bytes) : String :=
  String.ofList (bytes.map fun byte ↦ if byte ≤ 127 then Char.ofNat byte.toNat
    else Char.ofNat 0xFFFD)

/-- The frames of RESP2 with arrays of strings, in both dialects. -/
def resp2Codec : Codec where
  decodeResp2 := resp2Decoder 3
  decodeResp3 := .bind (resp2Decoder 3) fun frame ↦
    match toResp3 frame with
    | some frame => .pure frame
    | none => .fail "not a command"
  fromUtf8Lossy := asciiLossy

theorem lawful_resp2Codec : resp2Codec.Lawful where
  resp2 := incremental_resp2Decoder 3
  resp3 := by
    refine incremental_bind (incremental_resp2Decoder 3) fun frame ↦ ?_
    split
    · exact incremental_pure _
    · exact incremental_fail _
  resp2_nil := rfl
  resp3_nil := rfl

end HydraCache.Redis
