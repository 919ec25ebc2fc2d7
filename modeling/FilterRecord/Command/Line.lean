/- Command/Line
   digest: The command line: switches at either level, an action, and the action's arguments. -/

import FilterRecord.Text.Blank
import FilterRecord.Text.Numeral

set_option autoImplicit false
set_option relaxedAutoImplicit false

namespace FilterRecord.Command

open Text

inductive Switch
  | logLevel
  | deviceGroups
  | resolveNames
  | numeric
  | json
  | revision
  | help
  | version
deriving DecidableEq, Repr

namespace Switch

def longName : Switch → String
  | logLevel => "log-level"
  | deviceGroups => "devgroups"
  | resolveNames => "resolve-names"
  | numeric => "numeric"
  | json => "json"
  | revision => "revision"
  | help => "help"
  | version => "version"

def letter? : Switch → Option Char
  | numeric => some 'n'
  | revision => some 'r'
  | help => some 'h'
  | version => some 'V'
  | _ => none

def takesValue : Switch → Bool
  | logLevel | deviceGroups | revision => true
  | _ => false

def shared : List Switch := [logLevel, deviceGroups, resolveNames, numeric, json, help]

end Switch

/-- The number that an optional sign and decimal digits write; none beyond 64 bits. -/
def readSigned? (cs : List Char) : Option Int :=
  let (negative, digits) : Bool × List Char := match cs with
    | '-' :: rest => (true, rest)
    | '+' :: rest => (false, rest)
    | _ => (false, cs)
  if digits.isEmpty || !digits.all (Numeral.isDigit 10) then none
  else
    let n := Numeral.valueOf 10 digits
    if negative then if n ≤ 0x8000000000000000 then some (-(n : Int)) else none
    else if n < 0x8000000000000000 then some (n : Int) else none

def readRevision? (s : String) : Option UInt8 :=
  match readSigned? s.toList with
  | some n => if 0 ≤ n ∧ n ≤ 255 then some (UInt8.ofNat n.toNat) else none
  | none => none

structure Given where
  logLevel : Option String
  deviceGroups : Option String
  revision : Option UInt8
  resolveNames : Bool
  numeric : Bool
  json : Bool
deriving DecidableEq, Repr

namespace Given

def empty : Given := ⟨none, none, none, false, false, false⟩

end Given

/-- Why the reading of a command line ends early. -/
inductive Halt
  /-- The line is refused. -/
  | refused
  /-- The line asks for help. -/
  | help
  /-- The line asks for the version. -/
  | version
deriving DecidableEq, Repr

namespace Given

/-- A switch with a value. No switch may come twice at one level, and a path is not empty. -/
def setValue (g : Given) (s : Switch) (value : String) : Except Halt Given :=
  match s with
  | .logLevel =>
    if g.logLevel.isSome then .error .refused else .ok { g with logLevel := some value }
  | .deviceGroups =>
    if g.deviceGroups.isSome || value = "" then .error .refused
    else .ok { g with deviceGroups := some value }
  | .revision =>
    match g.revision, readRevision? value with
    | none, some revision => .ok { g with revision := some revision }
    | _, _ => .error .refused
  | _ => .error .refused

def setFlag (g : Given) (s : Switch) : Except Halt Given :=
  match s with
  | .resolveNames =>
    if g.resolveNames then .error .refused else .ok { g with resolveNames := true }
  | .numeric => if g.numeric then .error .refused else .ok { g with numeric := true }
  | .json => if g.json then .error .refused else .ok { g with json := true }
  | .help => .error .help
  | .version => .error .version
  | _ => .error .refused

end Given

/-- What one level of the command line knows. -/
structure Scope where
  switches : List Switch
  /-- The words that end the level and name an action. -/
  actions : List String
  /-- How many plain words the level takes. -/
  words : Nat
  /-- Every token after those words is kept as it is, from the first that is no known switch. -/
  keepsRest : Bool
deriving DecidableEq, Repr

namespace Scope

def long? (c : Scope) (name : String) : Option Switch :=
  c.switches.find? (·.longName == name)

def short? (c : Scope) (letter : Char) : Option Switch :=
  c.switches.find? (·.letter? == some letter)

end Scope

/-- How far a level has been read. -/
structure Progress where
  given : Given
  /-- A switch that still waits for its value. -/
  waiting : Option Switch
  /-- The plain words so far. -/
  words : List String
  /-- The tokens kept as they are. -/
  kept : List String
deriving DecidableEq, Repr

namespace Progress

def start : Progress := ⟨.empty, none, [], []⟩

def settled (p : Progress) : Except Halt Progress :=
  if p.waiting.isSome then .error .refused else .ok p

/-- All plain words are there, and tokens that are no switches are kept from here on. -/
def keeps (p : Progress) (c : Scope) : Bool :=
  c.keepsRest && p.words.length = c.words

def give (p : Progress) (s : Switch) (attached : Option String) : Except Halt Progress := do
  let p ← p.settled
  match attached with
  | some value => return { p with given := ← p.given.setValue s value }
  | none =>
    if s.takesValue then return { p with waiting := some s }
    else return { p with given := ← p.given.setFlag s }

/-- Letters after one dash. A letter that takes a value takes the rest of the token for it, after
an equals sign that may stand between. -/
def giveLetters (c : Scope) : Progress → List Char → Except Halt Progress
  | p, [] => .ok p
  | p, letter :: rest =>
    match c.short? letter with
    | none => .error .refused
    | some s =>
      if s.takesValue then
        match rest with
        | [] => p.give s none
        | '=' :: value => p.give s (some (String.ofList value))
        | value => p.give s (some (String.ofList value))
      else do giveLetters c (← p.give s none) rest

/-- A plain token: the value of the switch that waits for one, or the next word. -/
def word (c : Scope) (p : Progress) (token : String) : Except Halt Progress :=
  match p.waiting with
  | some s => do return { p with given := ← p.given.setValue s token, waiting := none }
  | none =>
    if p.words.length < c.words then .ok { p with words := p.words ++ [token] }
    else .error .refused

end Progress

inductive Step
  /-- The level goes on. -/
  | proceed (p : Progress)
  /-- The level ends at the name of an action. -/
  | action (p : Progress) (name : String)
  /-- All further tokens are plain. -/
  | plain (p : Progress)
  /-- This token and all further ones are kept. -/
  | keep (p : Progress)

/-- A token that is no switch. It is kept once the level has its words, unless a switch waits for
its value. -/
def Progress.plainStep (c : Scope) (p : Progress) (token : String) : Except Halt Step :=
  if p.waiting.isNone && p.keeps c then .ok (.keep p)
  else do return .proceed (← p.word c token)

def Progress.longStep (c : Scope) (p : Progress) (token : String) (body : List Char) :
    Except Halt Step :=
  let (name, attached) : List Char × Option String := match splitFirst '=' body with
    | some (name, value) => (name, some (String.ofList value))
    | none => (body, none)
  match c.long? (String.ofList name) with
  | some s =>
    if s.takesValue || attached.isNone then do return .proceed (← p.give s attached)
    else .error .refused
  | none => if p.keeps c then p.plainStep c token else .error .refused

def Progress.shortStep (c : Scope) (p : Progress) (token : String) (letters : List Char) :
    Except Halt Step :=
  if p.keeps c && letters.any (fun letter => (c.short? letter).isNone) then p.plainStep c token
  else do return .proceed (← p.giveLetters c letters)

def Progress.step (c : Scope) (p : Progress) (token : String) : Except Halt Step :=
  if p.waiting.isNone && c.actions.contains token then .ok (.action p token)
  else match token.toList with
    | ['-', '-'] => do return .plain (← p.settled)
    | '-' :: '-' :: body => p.longStep c token body
    | '-' :: letter :: rest => p.shortStep c token (letter :: rest)
    | _ => p.plainStep c token

/-- Plain tokens: the words that are missing, then tokens to keep where the level does. -/
def Progress.takePlain (c : Scope) (p : Progress) : List String → Except Halt Progress
  | [] => .ok p
  | token :: rest =>
    if p.words.length < c.words then { p with words := p.words ++ [token] }.takePlain c rest
    else if c.keepsRest then .ok { p with kept := token :: rest }
    else .error .refused

/-- A level of the command line: what it was given, and the action that ends it with the tokens that
follow. -/
def Progress.read (c : Scope) (p : Progress) :
    List String → Except Halt (Progress × Option (String × List String))
  | [] => do return (← p.settled, none)
  | token :: rest =>
    match p.step c token with
    | .error halt => .error halt
    | .ok (.proceed next) => next.read c rest
    | .ok (.action next name) => .ok (next, some (name, rest))
    | .ok (.plain next) => do return (← next.takePlain c rest, none)
    | .ok (.keep next) => .ok ({ next with kept := token :: rest }, none)

inductive Action
  /-- Write the record of a rule. -/
  | parse (extension : String) (options : List String)
  /-- Show the rule of a record. -/
  | describe (extension record : String)
  /-- Show the nftables statement of a record. -/
  | statement (extension record : String)
  /-- Show the options of an extension. -/
  | help (extension : String)
  /-- List the extensions. -/
  | list
deriving DecidableEq, Repr

structure Invocation where
  logLevel : Option String
  deviceGroups : Option String
  resolveNames : Bool
  numeric : Bool
  json : Bool
  revision : Option UInt8
  action : Action
deriving DecidableEq, Repr

def rootScope : Scope :=
  ⟨.version :: Switch.shared, ["parse", "show", "xlate", "help", "list"], 0, false⟩

def actionScope (name : String) : Scope :=
  let switches := if name = "list" then Switch.shared else .revision :: Switch.shared
  let words := if name = "list" then 0 else if name = "show" || name = "xlate" then 2 else 1
  ⟨switches, [], words, name = "parse"⟩

def actionOf (name : String) (words kept : List String) : Except Halt Action :=
  match name, words with
  | "parse", [extension] => .ok (.parse extension kept)
  | "show", [extension, record] => .ok (.describe extension record)
  | "xlate", [extension, record] => .ok (.statement extension record)
  | "help", [extension] => .ok (.help extension)
  | "list", [] => .ok .list
  | _, _ => .error .refused

/-- The invocation that a command line writes. A switch after the action's name counts before one
in front of it. -/
def readLine (tokens : List String) : Except Halt Invocation := do
  let (outer, rest) ← Progress.start.read rootScope tokens
  match rest with
  | none => throw .refused
  | some (name, tail) =>
    let (inner, _) ← Progress.start.read (actionScope name) tail
    let action ← actionOf name inner.words inner.kept
    return {
      logLevel := inner.given.logLevel <|> outer.given.logLevel
      deviceGroups := inner.given.deviceGroups <|> outer.given.deviceGroups
      resolveNames := inner.given.resolveNames || outer.given.resolveNames
      numeric := inner.given.numeric || outer.given.numeric
      json := inner.given.json || outer.given.json
      revision := inner.given.revision
      action := action }

end FilterRecord.Command
