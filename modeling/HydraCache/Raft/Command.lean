import HydraCache.Cluster.Membership
import HydraCache.Lib.Bytes
import Mathlib.Data.List.Infix

/-!
# Metadata commands and their wire form

The control plane proposes commands: a member or a client is admitted with a generation, a node
left, a topology was committed. Each command has an id, built from it (`commandIdFor`), by which a
replica recognises a command it has applied before. A command travels in an envelope with its id, as
text with bars between its fields (`encodeEnvelope`), and every replica decodes it when it applies
the entry (`decodeEnvelope`).

The id writes bars and colons of a node id as `%7C` and `%3A`; the command itself writes the node id
as it is. So an id is never cut in two (`bar_notMem_commandIdFor`), but a command is:
`decodeEnvelope_encodeEnvelope_iff` says that an envelope is read back exactly when its node ids can
be told apart on the wire (`WireSafe`), and that it is read at all exactly when none of them
contains a bar. Since the percent sign is written as it is, two node ids can be written alike:
`commandIdFor_identifies_iff` says whose commands have an id of their own.

Scope. The positions in the messages of invalid UTF-8 are left out.
-/

set_option autoImplicit false

namespace HydraCache.Raft

open Lib Cluster List

inductive RaftMetadataCommand where
  | memberUpsert (nodeId : NodeId) (generation epoch : ℕ)
  | clientUpsert (nodeId : NodeId) (generation epoch : ℕ)
  | nodeLeft (nodeId : NodeId) (role : ClusterRole) (epoch : ℕ)
  | commitTopology (epoch : ℕ) (members : List NodeId)
deriving DecidableEq

structure RaftMetadataCommandEnvelope where
  commandId : String
  command : RaftMetadataCommand
deriving DecidableEq

/-! ### Command ids -/

def commandIdNode (node : NodeId) : String := replaceChar ':' "%3A" (replaceChar '|' "%7C" node)

def commandIdFor : RaftMetadataCommand → String
  | .memberUpsert node generation _ =>
    "member-upsert:" ++ commandIdNode node ++ ":" ++ decimal generation
  | .clientUpsert node generation _ =>
    "client-upsert:" ++ commandIdNode node ++ ":" ++ decimal generation
  | .nodeLeft node _ epoch => "node-left:" ++ commandIdNode node ++ ":" ++ decimal epoch
  | .commitTopology epoch members =>
    "commit-topology:" ++ decimal epoch ++ ":" ++ joinChar ',' (members.map commandIdNode)

/-- The envelope a command is proposed in. -/
def RaftMetadataCommand.envelope (command : RaftMetadataCommand) : RaftMetadataCommandEnvelope where
  commandId := commandIdFor command
  command

/-! ### The wire form -/

def roleToStr : ClusterRole → String
  | .local => "local"
  | .client => "client"
  | .member => "member"

def parseRole (value : String) : Except CacheError ClusterRole :=
  if value = "local" then .ok .local
  else if value = "client" then .ok .client
  else if value = "member" then .ok .member
  else .error (.backend ("invalid raft metadata role: " ++ value))

def parseU64 (value label : String) : Except CacheError ℕ :=
  match parseWord value with
  | .ok word => .ok word
  | .error error => .error (.backend ("invalid " ++ label ++ " in raft command: " ++ error.message))

def commandText : RaftMetadataCommand → String
  | .memberUpsert node generation epoch =>
    "member|" ++ node ++ "|" ++ decimal generation ++ "|" ++ decimal epoch
  | .clientUpsert node generation epoch =>
    "client|" ++ node ++ "|" ++ decimal generation ++ "|" ++ decimal epoch
  | .nodeLeft node role epoch => "left|" ++ node ++ "|" ++ roleToStr role ++ "|" ++ decimal epoch
  | .commitTopology epoch members => "topology|" ++ decimal epoch ++ "|" ++ joinChar ',' members

def encodeEnvelope (envelope : RaftMetadataCommandEnvelope) : Bytes :=
  utf8 ("v1|" ++ (envelope.commandId ++ "|" ++ commandText envelope.command))

/-- Read a command of four fields. -/
def decodeFields (text kind node second epoch : String) : Except CacheError RaftMetadataCommand :=
  if kind = "member" then do
    let generation ← parseU64 second "generation"
    let epoch ← parseU64 epoch "epoch"
    .ok (.memberUpsert node generation epoch)
  else if kind = "client" then do
    let generation ← parseU64 second "generation"
    let epoch ← parseU64 epoch "epoch"
    .ok (.clientUpsert node generation epoch)
  else if kind = "left" then do
    let role ← parseRole second
    let epoch ← parseU64 epoch "epoch"
    .ok (.nodeLeft node role epoch)
  else .error (.backend ("invalid raft metadata command: " ++ text))

def decodeText (text : String) : Except CacheError RaftMetadataCommand :=
  match splitChar '|' text with
  | [kind, node, second, epoch] => decodeFields text kind node second epoch
  | [kind, epoch, members] =>
    if kind = "topology" then do
      let epoch ← parseU64 epoch "epoch"
      .ok (.commitTopology epoch ((splitChar ',' members).filter (· ≠ "")))
    else .error (.backend ("invalid raft metadata command: " ++ text))
  | _ => .error (.backend ("invalid raft metadata command: " ++ text))

def decodeCommand (data : Bytes) : Except CacheError RaftMetadataCommand :=
  match ofUtf8 data with
  | none => .error (.backend "invalid raft command utf8")
  | some text => decodeText text

/-- Read an envelope; a text without the version in front is a command of the legacy form. -/
def decodeEnvelope (data : Bytes) : Except CacheError RaftMetadataCommandEnvelope :=
  match ofUtf8 data with
  | none => .error (.backend "invalid raft envelope utf8")
  | some text =>
    match stripLead "v1|" text with
    | some rest =>
      match splitOnceChar '|' rest with
      | none => .error (.backend ("invalid raft metadata envelope: " ++ text))
      | some (commandId, command) => do
        let command ← decodeCommand (utf8 command)
        .ok { commandId, command }
    | none => do
      let command ← decodeCommand data
      .ok command.envelope

/-! ### Ids on the wire -/

theorem notMem_decimal {n : ℕ} {x : Char} (h : x.isDigit = false) : x ∉ (decimal n).toList := by
  intro hx
  simp [isDigit_of_mem_decimal hx] at h

theorem bar_notMem_decimal (n : ℕ) : '|' ∉ (decimal n).toList := notMem_decimal rfl

theorem bar_notMem_commandIdNode (node : NodeId) : '|' ∉ (commandIdNode node).toList := by
  rw [commandIdNode, mem_replaceChar, mem_replaceChar]
  simp

theorem commandIdFor_ne_empty (command : RaftMetadataCommand) : commandIdFor command ≠ "" := by
  -- every id has a colon in the middle
  have hcolon (front back : String) : front ++ ":" ++ back ≠ "" := by simp
  cases command <;> exact hcolon _ _

/-- No id contains a bar, so an envelope is cut after its id. -/
theorem bar_notMem_commandIdFor (command : RaftMetadataCommand) :
    '|' ∉ (commandIdFor command).toList := by
  have hnode := bar_notMem_commandIdNode
  have hcolon : '|' ∉ ":".toList := by decide
  cases command with
  | memberUpsert node | clientUpsert node | nodeLeft node =>
    exact notMem_append (notMem_append (notMem_append (by decide) (hnode node)) hcolon)
      (bar_notMem_decimal _)
  | commitTopology =>
    refine notMem_append (notMem_append (notMem_append (by decide) (bar_notMem_decimal _)) hcolon)
      ?_
    rw [mem_joinChar_iff (by decide)]
    rintro ⟨part, hpart, hbar⟩
    obtain ⟨node, -, rfl⟩ := mem_map.mp hpart
    exact hnode node hbar

/-! ### Reading a command back -/

namespace RaftMetadataCommand

/-- The numbers of the command are 64-bit words. -/
def Words : RaftMetadataCommand → Prop
  | .memberUpsert _ generation epoch => generation ≤ maxWord ∧ epoch ≤ maxWord
  | .clientUpsert _ generation epoch => generation ≤ maxWord ∧ epoch ≤ maxWord
  | .nodeLeft _ _ epoch => epoch ≤ maxWord
  | .commitTopology epoch _ => epoch ≤ maxWord

def nodeIds : RaftMetadataCommand → List NodeId
  | .memberUpsert node _ _ => [node]
  | .clientUpsert node _ _ => [node]
  | .nodeLeft node _ _ => [node]
  | .commitTopology _ members => members

/-- No node id of the command contains a bar. -/
def BarFree (command : RaftMetadataCommand) : Prop := ∀ node ∈ command.nodeIds, '|' ∉ node.toList

/-- The node ids of the command can be told apart on the wire: none contains a bar, and none of a
topology is empty or contains a comma. -/
def WireSafe : RaftMetadataCommand → Prop
  | .memberUpsert node _ _ => '|' ∉ node.toList
  | .clientUpsert node _ _ => '|' ∉ node.toList
  | .nodeLeft node _ _ => '|' ∉ node.toList
  | .commitTopology _ members =>
    ∀ member ∈ members, member ≠ "" ∧ ',' ∉ member.toList ∧ '|' ∉ member.toList

instance : DecidablePred WireSafe
  | .memberUpsert _ _ _ | .clientUpsert _ _ _ | .nodeLeft _ _ _ =>
    inferInstanceAs (Decidable (_ ∉ _))
  | .commitTopology _ members => inferInstanceAs (Decidable (∀ member ∈ members, _))

/-- What a command without bars is read back as: a topology with its members cut at the commas. -/
def asRead : RaftMetadataCommand → RaftMetadataCommand
  | .commitTopology epoch members =>
    .commitTopology epoch ((splitChar ',' (joinChar ',' members)).filter (· ≠ ""))
  | command => command

end RaftMetadataCommand

open RaftMetadataCommand

theorem parseU64_decimal {n : ℕ} (h : n ≤ maxWord) (label : String) :
    parseU64 (decimal n) label = .ok n := by
  rw [parseU64, parseWord_decimal h]

theorem parseRole_roleToStr (role : ClusterRole) : parseRole (roleToStr role) = .ok role := by
  cases role <;> rfl

variable {lead node second third text : String} {command : RaftMetadataCommand}

theorem splitChar_bar (front back : String) :
    splitChar '|' (front ++ "|" ++ back) = splitChar '|' front ++ splitChar '|' back := by
  refine splitChar_of_toList_eq ?_
  rw [String.toList_append, String.toList_append, append_assoc]
  rfl

theorem splitChar_topology (epoch : ℕ) (members : String) :
    splitChar '|' ("topology|" ++ decimal epoch ++ "|" ++ members) =
      "topology" :: decimal epoch :: splitChar '|' members := by
  have hlead : "topology|" = "topology" ++ "|" := rfl
  rw [splitChar_bar, hlead, splitChar_bar, splitChar_of_notMem (by decide),
    splitChar_of_notMem (notMem_decimal rfl)]
  rfl

theorem decodeText_of_length (h : 5 ≤ (splitChar '|' text).length) :
    decodeText text = .error (.backend ("invalid raft metadata command: " ++ text)) := by
  unfold decodeText
  split
  · rename_i hparts
    simp [hparts] at h
  · rename_i hparts
    simp [hparts] at h
  · rfl

theorem bar_notMem_roleToStr (role : ClusterRole) : '|' ∉ (roleToStr role).toList := by
  cases role <;> decide

section Fields

variable (kind : String) (hlead : lead = kind ++ "|") (hkind : '|' ∉ kind.toList)
  (hsnd : '|' ∉ second.toList) (hthird : '|' ∉ third.toList)
include hlead hkind hsnd hthird

/-- The parts of a command of four fields, where only the second field can contain bars. -/
theorem splitChar_fields :
    splitChar '|' (lead ++ node ++ "|" ++ second ++ "|" ++ third) =
      kind :: (splitChar '|' node ++ [second, third]) := by
  rw [splitChar_bar, splitChar_bar, hlead, splitChar_bar, splitChar_of_notMem hkind,
    splitChar_of_notMem hsnd, splitChar_of_notMem hthird, append_assoc]
  rfl

/-- A bar in the node id of a command of four fields makes it unreadable. -/
theorem decodeText_of_bar (hnode : '|' ∈ node.toList) :
    ∃ error, decodeText (lead ++ node ++ "|" ++ second ++ "|" ++ third) = .error error := by
  obtain ⟨first, next, rest, hsplit⟩ := exists_splitChar_of_mem hnode
  refine ⟨_, decodeText_of_length ?_⟩
  rw [splitChar_fields kind hlead hkind hsnd hthird, hsplit]
  simp only [length_cons, length_append, length_nil]
  omega

theorem decodeText_fields (hnode : '|' ∉ node.toList) :
    let text := lead ++ node ++ "|" ++ second ++ "|" ++ third
    decodeText text = decodeFields text kind node second third := by
  intro text
  rw [decodeText, splitChar_fields kind hlead hkind hsnd hthird, splitChar_of_notMem hnode]
  rfl

end Fields

/-- Assumes: a command of 64-bit words without bars in its node ids. It is read back, a topology
with its members cut at the commas. -/
theorem decodeText_commandText (hwords : command.Words)
    (hbar : command.BarFree) : decodeText (commandText command) = .ok command.asRead := by
  cases command with
  | memberUpsert node =>
    refine (decodeText_fields "member" rfl (by decide) (bar_notMem_decimal _) (bar_notMem_decimal _)
      (hbar node mem_cons_self)).trans ?_
    rw [decodeFields, if_pos rfl, parseU64_decimal hwords.1, parseU64_decimal hwords.2]
    rfl
  | clientUpsert node =>
    refine (decodeText_fields "client" rfl (by decide) (bar_notMem_decimal _) (bar_notMem_decimal _)
      (hbar node mem_cons_self)).trans ?_
    rw [decodeFields, if_neg (by decide), if_pos rfl, parseU64_decimal hwords.1,
      parseU64_decimal hwords.2]
    rfl
  | nodeLeft node =>
    refine (decodeText_fields "left" rfl (by decide) (bar_notMem_roleToStr _) (bar_notMem_decimal _)
      (hbar node mem_cons_self)).trans ?_
    rw [decodeFields, if_neg (by decide), if_neg (by decide), if_pos rfl, parseRole_roleToStr,
      parseU64_decimal hwords]
    rfl
  | commitTopology epoch members =>
    have hmems : '|' ∉ (joinChar ',' members).toList := by
      rw [mem_joinChar_iff (by decide)]
      rintro ⟨member, hmember, hmem⟩
      exact hbar member hmember hmem
    have hparts : splitChar '|' (commandText (.commitTopology epoch members)) =
        ["topology", decimal epoch, joinChar ',' members] := by
      have htop := splitChar_topology epoch (joinChar ',' members)
      rwa [splitChar_of_notMem hmems] at htop
    rw [decodeText, hparts]
    dsimp only
    rw [if_pos rfl, parseU64_decimal hwords]
    rfl

theorem decodeText_commandText_error (hbar : ¬ command.BarFree) :
    ∃ error, decodeText (commandText command) = .error error := by
  unfold BarFree at hbar
  push Not at hbar
  obtain ⟨node, hnode, hmem⟩ := hbar
  cases command with
  | memberUpsert =>
    cases mem_singleton.mp hnode
    exact decodeText_of_bar "member" rfl (by decide) (bar_notMem_decimal _)
      (bar_notMem_decimal _) hmem
  | clientUpsert =>
    cases mem_singleton.mp hnode
    exact decodeText_of_bar "client" rfl (by decide) (bar_notMem_decimal _)
      (bar_notMem_decimal _) hmem
  | nodeLeft =>
    cases mem_singleton.mp hnode
    exact decodeText_of_bar "left" rfl (by decide) (bar_notMem_roleToStr _)
      (bar_notMem_decimal _) hmem
  | commitTopology epoch members =>
    have hmems : '|' ∈ (joinChar ',' members).toList :=
      (mem_joinChar_iff (by decide)).mpr ⟨node, hnode, hmem⟩
    obtain ⟨first, second, rest, hsplit⟩ := exists_splitChar_of_mem hmems
    have hparts : splitChar '|' (commandText (.commitTopology epoch members)) =
        "topology" :: decimal epoch :: first :: second :: rest := by
      have htop := splitChar_topology epoch (joinChar ',' members)
      rwa [hsplit] at htop
    cases rest with
    | nil =>
      -- four parts, and none of the commands of four parts is a topology
      rw [decodeText, hparts]
      dsimp only
      rw [decodeFields, if_neg (by decide), if_neg (by decide), if_neg (by decide)]
      exact ⟨_, rfl⟩
    | cons =>
      refine ⟨_, decodeText_of_length ?_⟩
      rw [hparts]
      simp only [length_cons]
      omega

theorem decodeEnvelope_encodeEnvelope (command : RaftMetadataCommand) :
    decodeEnvelope (encodeEnvelope command.envelope) =
      (do
        let command' ← decodeText (commandText command)
        .ok { commandId := commandIdFor command, command := command' }) := by
  have honce : splitOnceChar '|' (commandIdFor command ++ "|" ++ commandText command) =
      some (commandIdFor command, commandText command) :=
    splitOnceChar_append (bar_notMem_commandIdFor command) _
  rw [encodeEnvelope, decodeEnvelope, ofUtf8_utf8]
  dsimp only
  rw [stripLead_append]
  dsimp only [envelope]
  rw [honce]
  dsimp only
  rw [decodeCommand, ofUtf8_utf8]

theorem asRead_eq_self_iff {epoch : ℕ} {members : List NodeId} :
    asRead (.commitTopology epoch members) = .commitTopology epoch members ↔
      ∀ member ∈ members, member ≠ "" ∧ ',' ∉ member.toList := by
  rw [asRead, commitTopology.injEq, eq_self_iff_true, true_and]
  constructor
  · intro h member hmem
    rw [← h] at hmem
    obtain ⟨hpart, hne⟩ := mem_filter.mp hmem
    exact ⟨of_decide_eq_true hne, notMem_of_mem_splitChar hpart⟩
  · intro h
    cases members with
    | nil => rfl
    | cons =>
      rw [splitChar_joinChar (cons_ne_nil _ _) fun member hmem ↦ (h member hmem).2]
      exact filter_eq_self.mpr fun member hmem ↦ decide_eq_true (h member hmem).1

theorem wireSafe_iff : command.WireSafe ↔ command.BarFree ∧ command.asRead = command := by
  cases command with
  | memberUpsert | clientUpsert | nodeLeft => simp [WireSafe, BarFree, nodeIds, asRead]
  | commitTopology =>
    rw [asRead_eq_self_iff, BarFree, nodeIds, WireSafe, ← forall₂_and]
    exact forall₂_congr fun member hmem ↦ by rw [← and_assoc, and_comm]

/-- Assumes: a command of 64-bit words. Its envelope is read back exactly when its node ids can be
told apart on the wire, and it is read at all exactly when none of them contains a bar. -/
theorem decodeEnvelope_encodeEnvelope_iff (command : RaftMetadataCommand) (hwords : command.Words) :
    (decodeEnvelope (encodeEnvelope command.envelope) = .ok command.envelope ↔
        command.WireSafe) ∧
      ((∃ envelope, decodeEnvelope (encodeEnvelope command.envelope) = .ok envelope) ↔
        command.BarFree) := by
  rw [decodeEnvelope_encodeEnvelope, wireSafe_iff]
  by_cases hbar : command.BarFree
  · rw [decodeText_commandText hwords hbar]
    refine ⟨?_, iff_of_true ⟨_, rfl⟩ hbar⟩
    simp [envelope, hbar]
  · obtain ⟨error, herror⟩ := decodeText_commandText_error hbar
    rw [herror]
    exact ⟨iff_of_false nofun fun h ↦ hbar h.1, iff_of_false nofun hbar⟩

/-- Colons and percent signs in a node id do no harm. -/
theorem decodeEnvelope_encodeEnvelope_colon :
    (RaftMetadataCommand.memberUpsert "eu:1%7C" 3 2).Words ∧
      decodeEnvelope (encodeEnvelope (envelope (.memberUpsert "eu:1%7C" 3 2))) =
        .ok (envelope (.memberUpsert "eu:1%7C" 3 2)) := by
  have hwords : (RaftMetadataCommand.memberUpsert "eu:1%7C" 3 2).Words := ⟨by decide, by decide⟩
  exact ⟨hwords, (decodeEnvelope_encodeEnvelope_iff _ hwords).1.mpr (by decide)⟩

/-- The join of a node with a bar in its id is never read; a topology with a comma in a member's id
is read as another topology. -/
theorem decodeEnvelope_encodeEnvelope_bar :
    decodeEnvelope (encodeEnvelope (envelope (.memberUpsert "a|b" 1 1))) =
        .error (.backend "invalid raft metadata command: member|a|b|1|1") ∧
      decodeEnvelope (encodeEnvelope (envelope (.commitTopology 4 ["a,b"]))) =
        .ok { commandId := "commit-topology:4:a,b", command := .commitTopology 4 ["a", "b"] } := by
  constructor
  · rw [decodeEnvelope_encodeEnvelope]
    decide +kernel
  · rw [decodeEnvelope_encodeEnvelope]
    decide +kernel

/-! ### Ids of different commands -/

/-- The commands agree in what an id stands for: the kind, the node of an upsert or a leave, and the
generation of an upsert or the epoch of the others. -/
def RaftMetadataCommand.SameIdentity : RaftMetadataCommand → RaftMetadataCommand → Prop
  | .memberUpsert node generation _, .memberUpsert node' generation' _ =>
    node = node' ∧ generation = generation'
  | .clientUpsert node generation _, .clientUpsert node' generation' _ =>
    node = node' ∧ generation = generation'
  | .nodeLeft node _ epoch, .nodeLeft node' _ epoch' => node = node' ∧ epoch = epoch'
  | .commitTopology epoch _, .commitTopology epoch' _ => epoch = epoch'
  | _, _ => False

/-- The node whose upsert or leave the command is. -/
def RaftMetadataCommand.node? : RaftMetadataCommand → Option NodeId
  | .memberUpsert node _ _ | .clientUpsert node _ _ | .nodeLeft node _ _ => some node
  | .commitTopology _ _ => none

/-- What `commandIdNode` writes for a letter. -/
def writtenLetter (x : Char) : List Char :=
  if x = '|' then "%7C".toList else if x = ':' then "%3A".toList else [x]

theorem toList_commandIdNode (node : NodeId) :
    (commandIdNode node).toList = node.toList.flatMap writtenLetter := by
  simp only [commandIdNode, replaceChar, String.toList_ofList, flatMap_assoc]
  refine congrArg (flatMap · _) (funext fun x ↦ ?_)
  by_cases hbar : x = '|'
  · subst hbar
    decide
  · simp [writtenLetter, hbar]

theorem colon_notMem_commandIdNode (node : NodeId) : ':' ∉ (commandIdNode node).toList := by
  rw [commandIdNode, mem_replaceChar]
  simp

/-- A node id that contains none of the four texts is written like no other. -/
theorem commandIdNode_eq_iff (node : NodeId) :
    (∀ other, commandIdNode other = commandIdNode node → other = node) ↔
      ∀ text ∈ ["|", ":", "%7C", "%3A"], ¬ text.toList <:+: node.toList := by
  simp only [← String.toList_inj, toList_commandIdNode]
  constructor
  · intro h text htext ⟨front, back, hnode⟩
    -- the text that stands for the same letters
    obtain ⟨other, hsame, hlen⟩ : ∃ other : List Char, other.flatMap writtenLetter =
        text.toList.flatMap writtenLetter ∧ other.length ≠ text.toList.length := by
      simp only [mem_cons, not_mem_nil, or_false] at htext
      rcases htext with rfl | rfl | rfl | rfl
      · exact ⟨"%7C".toList, by decide⟩
      · exact ⟨"%3A".toList, by decide⟩
      · exact ⟨"|".toList, by decide⟩
      · exact ⟨":".toList, by decide⟩
    have heq := h (String.ofList (front ++ other ++ back)) (by simp [← hnode, hsame])
    have hlength := congrArg length heq
    rw [← hnode, String.toList_ofList] at hlength
    simp only [length_append] at hlength
    omega
  · intro h other hother
    have hself (chars : List Char) (hbar : '|' ∉ chars) (hcolon : ':' ∉ chars) :
        chars.flatMap writtenLetter = chars := by
      refine (flatMap_congr fun x hx ↦ ?_).trans (flatMap_singleton' chars)
      have hne (letter : Char) (hletter : letter ∉ chars) : x ≠ letter :=
        fun heq ↦ hletter (heq ▸ hx)
      rw [writtenLetter, if_neg (hne _ hbar), if_neg (hne _ hcolon)]
    have hnode : node.toList.flatMap writtenLetter = node.toList :=
      hself _ (fun hbar ↦ h "|" (by simp) ((singleton_infix_iff _ _).mpr hbar))
        fun hcolon ↦ h ":" (by simp) ((singleton_infix_iff _ _).mpr hcolon)
    rw [hnode] at hother
    have hwritten (x : Char) (hx : x ∈ other.toList) : writtenLetter x <:+: node.toList :=
      hother ▸ infix_flatMap_of_mem hx writtenLetter
    rwa [hself _ (fun hbar ↦ h "%7C" (by simp) (hwritten _ hbar))
      fun hcolon ↦ h "%3A" (by simp) (hwritten _ hcolon)] at hother

/-- The kind, the first field and what stands behind it. -/
def RaftMetadataCommand.idParts : RaftMetadataCommand → String × String × String
  | .memberUpsert node generation _ => ("member-upsert", commandIdNode node, decimal generation)
  | .clientUpsert node generation _ => ("client-upsert", commandIdNode node, decimal generation)
  | .nodeLeft node _ epoch => ("node-left", commandIdNode node, decimal epoch)
  | .commitTopology epoch members =>
    ("commit-topology", decimal epoch, joinChar ',' (members.map commandIdNode))

theorem commandIdFor_eq (command : RaftMetadataCommand) : commandIdFor command =
    command.idParts.1 ++ String.ofList [':'] ++
      (command.idParts.2.1 ++ String.ofList [':'] ++ command.idParts.2.2) := by
  have hlead (kind : String) {lead : String} (h : lead = kind ++ ":") (first rest : String) :
      lead ++ first ++ ":" ++ rest = kind ++ ":" ++ (first ++ ":" ++ rest) := by
    simp only [h, String.append_assoc]
  cases command with
  | memberUpsert => exact hlead "member-upsert" rfl _ _
  | clientUpsert => exact hlead "client-upsert" rfl _ _
  | nodeLeft node => exact hlead "node-left" rfl _ _
  | commitTopology => exact hlead "commit-topology" rfl _ _

/-- The parts are read off an id, since a colon stands behind each of the first two and none in
them. -/
theorem idParts_eq_of_commandIdFor_eq {command other : RaftMetadataCommand}
    (h : commandIdFor other = commandIdFor command) : other.idParts = command.idParts := by
  have hkind (command : RaftMetadataCommand) : ':' ∉ command.idParts.1.toList := by
    cases command <;> simp [idParts]
  have hfirst (command : RaftMetadataCommand) : ':' ∉ command.idParts.2.1.toList := by
    cases command with
    | commitTopology => exact notMem_decimal rfl
    | _ => exact colon_notMem_commandIdNode _
  rw [commandIdFor_eq, commandIdFor_eq] at h
  have hcut := congrArg (splitOnceChar ':') h
  rw [splitOnceChar_append (hkind other), splitOnceChar_append (hkind command), Option.some.injEq,
    Prod.mk.injEq] at hcut
  have hrest := congrArg (splitOnceChar ':') hcut.2
  rw [splitOnceChar_append (hfirst other), splitOnceChar_append (hfirst command)] at hrest
  exact Prod.ext hcut.1 (Option.some.inj hrest)

/-- No other command has the id of a command exactly if its node id contains no bar, no colon and
neither of the texts written for them. -/
theorem commandIdFor_identifies_iff (command : RaftMetadataCommand) :
    (∀ other, commandIdFor other = commandIdFor command → other.SameIdentity command) ↔
      ∀ node ∈ command.node?, ∀ text ∈ ["|", ":", "%7C", "%3A"],
        ¬ text.toList <:+: node.toList := by
  simp only [← commandIdNode_eq_iff]
  constructor
  · intro h node hnode other hother
    have hid (lead back : String) : lead ++ commandIdNode other ++ ":" ++ back =
        lead ++ commandIdNode node ++ ":" ++ back := by rw [hother]
    cases command with
    | commitTopology => exact absurd hnode (by simp [node?])
    | memberUpsert _ generation epoch =>
      cases hnode
      exact (h (.memberUpsert other generation epoch) (hid _ _)).1
    | clientUpsert _ generation epoch =>
      cases hnode
      exact (h (.clientUpsert other generation epoch) (hid _ _)).1
    | nodeLeft _ role epoch =>
      cases hnode
      exact (h (.nodeLeft other role epoch) (hid _ _)).1
  · intro h other hother
    have hparts := idParts_eq_of_commandIdFor_eq hother
    cases other with
    | commitTopology =>
      cases command <;> simp [idParts] at hparts
      exact decimal_injective hparts.1
    | memberUpsert found generation epoch | clientUpsert found generation epoch
    | nodeLeft found role epoch =>
      cases command <;> simp [idParts] at hparts
      exact ⟨h _ rfl _ hparts.1, decimal_injective hparts.2⟩

/-- The joins of two nodes under one id. -/
theorem commandIdFor_collides :
    commandIdFor (.memberUpsert "a|b" 1 1) = commandIdFor (.memberUpsert "a%7Cb" 1 1) ∧
      ¬ SameIdentity (.memberUpsert "a|b" 1 1) (.memberUpsert "a%7Cb" 1 1) := by
  refine ⟨by decide +kernel, fun h ↦ absurd h.1 (by decide)⟩

end HydraCache.Raft
