/- Match/Socket
   digest: The socket match, which looks at the socket a packet belongs to, in its revisions. -/

import FilterRecord.Match.Credential
import FilterRecord.Match.States
import FilterRecord.Options.Occurrence
import FilterRecord.Options.Shown
import FilterRecord.Record.Field

set_option autoImplicit false
set_option relaxedAutoImplicit false

namespace FilterRecord

open Text
open Options (Entry Occurrence Operand shown)

/-- A socket record, with the revision of its layout. -/
structure SocketMatch where
  revision : UInt8
  flags : UInt8
  /-- The conditions that are inverted. -/
  inverted : UInt8
  states : UInt32
  users : CredentialRange
  groups : CredentialRange
deriving DecidableEq, Repr

namespace SocketMatch

def name : String := "socket"

namespace Flag

def transparent : UInt8 := 1

/-- Listening sockets bound to any address count too. -/
def noWildcard : UInt8 := 2

/-- The packet takes the mark of the socket. -/
def restoreMark : UInt8 := 4

def invert : UInt8 := 8

def state : UInt8 := 16

def user : UInt8 := 32

def group : UInt8 := 64

end Flag

namespace Id

@[match_pattern] abbrev transparent : Nat := 0
@[match_pattern] abbrev noWildcard : Nat := 1
@[match_pattern] abbrev restoreMark : Nat := 2
@[match_pattern] abbrev invert : Nat := 3
@[match_pattern] abbrev state : Nat := 4
@[match_pattern] abbrev user : Nat := 5
@[match_pattern] abbrev group : Nat := 6

end Id

def fullTable : List Entry :=
  [⟨"transparent", Id.transparent, .flag, 0, true⟩,
    ⟨"nowildcard", Id.noWildcard, .flag, 0, false⟩,
    ⟨"restore-skmark", Id.restoreMark, .flag, 0, false⟩,
    ⟨"invert", Id.invert, .flag, 0, false⟩,
    ⟨"state", Id.state, .text, 0, true⟩,
    ⟨"user", Id.user, .text, 0, true⟩,
    ⟨"group", Id.group, .text, 0, true⟩]

/-- The option table; revision 0 takes no options. -/
def table (m : SocketMatch) : List Entry :=
  if m.revision = 0 then [] else fullTable

def create (revision : UInt8) : SocketMatch :=
  ⟨revision, 0, 0, 0, ⟨0, 0⟩, ⟨0, 0⟩⟩

def size (revision : UInt8) : Nat :=
  if revision = 0 then Field.align 0
  else if revision ≤ 3 then Field.align 1
  else Field.align 24

def has (m : SocketMatch) (flag : UInt8) : Bool := m.flags &&& flag != 0

def inverts (m : SocketMatch) (flag : UInt8) : Bool := m.inverted &&& flag != 0

/-- The record with a flag set, and its inversion where the option is inverted. -/
def withFlag (m : SocketMatch) (flag : UInt8) (inverted : Bool) : SocketMatch :=
  { m with
    flags := m.flags ||| flag
    inverted := if inverted then m.inverted ||| flag else m.inverted }

def badValue (o : Occurrence) : RuleError :=
  o.badValue ("Bad value for \"--" ++ o.entry.name ++ "\" option: \"" ++ o.rawArgument ++ "\"")

def applyState (m : SocketMatch) (o : Occurrence) (list : String) : Except RuleError SocketMatch :=
  match StateTable.read? list with
  | some states => .ok (withFlag { m with states := states } Flag.state o.inverted)
  | none => .error (badValue o)

def applyUser (accounts : Accounts) (m : SocketMatch) (o : Occurrence) (user : String) :
    Except RuleError SocketMatch :=
  match CredentialRange.ofArgument? accounts.users user with
  | some users => .ok (withFlag { m with users := users } Flag.user o.inverted)
  | none => .error (badValue o)

def applyGroup (accounts : Accounts) (m : SocketMatch) (o : Occurrence) (group : String) :
    Except RuleError SocketMatch :=
  match CredentialRange.ofArgument? accounts.groups group with
  | some groups => .ok (withFlag { m with groups := groups } Flag.group o.inverted)
  | none => .error (badValue o)

def applyExtended (accounts : Accounts) (m : SocketMatch) (o : Occurrence) :
    Except RuleError SocketMatch :=
  match o.entry.id, o.operand with
  | Id.invert, _ => .ok (m.withFlag Flag.invert false)
  | Id.state, .text list => m.applyState o list
  | Id.user, .text user => m.applyUser accounts o user
  | Id.group, .text group => m.applyGroup accounts o group
  | _, _ => .error o.unsupported

/-- The record after an option of its rule. Each revision adds options; the inversion of the first
came with revision 3. -/
def apply (accounts : Accounts) (m : SocketMatch) (o : Occurrence) :
    Except RuleError SocketMatch :=
  match o.entry.id with
  | Id.transparent =>
    if o.inverted && m.revision < 3 then .error o.unsupported
    else .ok (m.withFlag Flag.transparent o.inverted)
  | Id.noWildcard =>
    if m.revision < 2 then .error o.unsupported else .ok (m.withFlag Flag.noWildcard false)
  | Id.restoreMark =>
    if m.revision < 3 then .error o.unsupported else .ok (m.withFlag Flag.restoreMark false)
  | _ => if m.revision < 4 then .error o.unsupported else m.applyExtended accounts o

/-- The words of the states; none when no names cover them. -/
def stateWords (dash : String) (m : SocketMatch) : List String :=
  match StateTable.display? m.states with
  | some states =>
    shown (m.has Flag.state) (m.inverts Flag.state) [dash ++ "state", states]
  | none => []

/-- The words of the record in a rule; `dash` stands before the options' names. A revision shows
only what its layout holds. -/
def ruleWords (accounts : Accounts) (dash : String) (m : SocketMatch) : List String :=
  shown (m.has Flag.transparent) (3 ≤ m.revision && m.inverts Flag.transparent)
    [dash ++ "transparent"] ++
  shown (2 ≤ m.revision && m.has Flag.noWildcard) false [dash ++ "nowildcard"] ++
  shown (3 ≤ m.revision && m.has Flag.restoreMark) false [dash ++ "restore-skmark"] ++
  if 4 ≤ m.revision then
    shown (m.has Flag.invert) false [dash ++ "invert"] ++
    m.stateWords dash ++
    shown (m.has Flag.user) (m.inverts Flag.user)
      [dash ++ "user", m.users.display accounts.users] ++
    shown (m.has Flag.group) (m.inverts Flag.group)
      [dash ++ "group", m.groups.display accounts.groups]
  else []

def listedWords (accounts : Accounts) (numeric : Bool) (m : SocketMatch) : List String :=
  name :: m.ruleWords (if numeric then .empty else accounts) ""

def savedWords (accounts : Accounts) (m : SocketMatch) : List String :=
  m.ruleWords accounts "--"

def pack (m : SocketMatch) : Field.Bytes :=
  if m.revision = 0 then []
  else if m.revision ≤ 3 then [m.flags, m.inverted] ++ Field.zeros 6
  else
    [m.flags, m.inverted] ++ Field.zeros 2 ++ Field.word32 m.states ++
      Field.word32 m.users.first ++ Field.word32 m.users.last ++
      Field.word32 m.groups.first ++ Field.word32 m.groups.last

def unpack (revision : UInt8) (record : Field.Bytes) : Except RuleError SocketMatch := do
  Field.checkSize name revision (size revision) (size revision) record
  if revision = 0 then return create revision
  let flags ← Field.get8 0 record
  let inverted ← Field.get8 1 record
  if revision ≤ 3 then return { create revision with flags := flags, inverted := inverted }
  let states ← Field.get32 4 record
  let firstUser ← Field.get32 8 record
  let lastUser ← Field.get32 12 record
  let firstGroup ← Field.get32 16 record
  let lastGroup ← Field.get32 20 record
  return ⟨revision, flags, inverted, states, ⟨firstUser, lastUser⟩, ⟨firstGroup, lastGroup⟩⟩

def help (m : SocketMatch) : String :=
  if m.revision = 0 then ofLines ["socket match takes no options"]
  else ofLines
    ["socket match options:",
      "[!] --transparent                Ignore non-transparent sockets",
      "    --nowildcard                 Don't ignore LISTEN sockets bound on INADDR_ANY",
      "    --restore-skmark             Set the packet mark to the socket mark if",
      "                                 the socket matches and transparent / ",
      "                                 nowildcard conditions are satisfied",
      "",
      "    --invert                     Invert matching result",
      "[!] --state <sk_state>[,...]     Match socket states, where <sk_state> could be",
      "          NEW         for sockets in state TCP_LISTEN, TCP_SYN_SENT or",
      "                      TCP_SYN_RECV",
      "          ESTABLISHED for sockets in state TCP_ESTABLISHED",
      "          CLOSING     for sockets in state TCP_FIN_WAIT1, TCP_FIN_WAIT2,",
      "                      TCP_TIME_WAIT, TCP_CLOSE, TCP_CLOSE_WAIT, TCP_LAST_ACK",
      "                      or TCP_CLOSING",
      "          ANY         for sockets in any state",
      "        Also socket state could be matched individually with any combination of",
      "        TCP_ESTABLISHED, TCP_SYN_SENT, TCP_SYN_RECV, TCP_FIN_WAIT1,",
      "        TCP_FIN_WAIT2, TCP_TIME_WAIT, TCP_CLOSE, TCP_CLOSE_WAIT, TCP_LAST_ACK,",
      "        TCP_LISTEN or TCP_CLOSING.",
      "[!] --user  \x7b<usrid>|from[-to]\x7d  Match when socket owned by the user",
      "[!] --group \x7b<grpid>|from[-to]\x7d  Match when socket owned by the group"]

end SocketMatch

end FilterRecord
