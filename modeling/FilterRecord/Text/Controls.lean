/- Text/Controls
   digest: The control sequences of a terminal, and what of a text they do not hide. -/

import FilterRecord.Text.Utf8

set_option autoImplicit false
set_option relaxedAutoImplicit false

namespace FilterRecord.Text.Controls

/-- A control sequence that has begun and not ended. -/
inductive Sequence
  /-- The escape character. -/
  | escape
  /-- An escape and further signs before its last one. -/
  | intermediate
  /-- A list of parameters, which a letter ends. -/
  | parameters
  /-- A string for the device, at its start. -/
  | device
  /-- A string for the device, in its list of parameters. -/
  | deviceParameters
  /-- A string for the device, in the signs before its letter. -/
  | deviceIntermediate
  /-- A string that a terminator ends. -/
  | string
  /-- A command for the terminal, which a bell ends too. -/
  | command
deriving DecidableEq, Repr

def within (low high : Nat) (c : Char) : Bool :=
  low ≤ c.toNat && c.toNat ≤ high

/-- The controls that move to another column or line. -/
def isLayout (c : Char) : Bool :=
  c == '\t' || c == '\n' || c == '\x0c' || c == '\r'

/-- The characters that are shown where no sequence is open. -/
def isShown (c : Char) : Bool :=
  within 0x20 0x7e c || 0x80 ≤ c.toNat || isLayout c

/-- A terminator of strings stands among the bytes of a character. -/
def holdsTerminator (c : Char) : Bool :=
  (String.utf8EncodeChar c).contains 0x9c

namespace Sequence

/-- A sequence in which layout controls act at once. -/
def yields : Sequence → Bool
  | escape | intermediate | parameters => true
  | _ => false

/-- What an escape becomes with its next character; none when it is complete. -/
def afterEscape (c : Char) : Option Sequence :=
  if c = '[' then some parameters
  else if c = ']' then some command
  else if c = 'P' then some device
  else if c = 'X' || c = '^' || c = '_' then some string
  else if within 0x20 0x2f c then some intermediate
  else if within 0x30 0x7e c then none
  else some escape

/-- What the head of a string for the device becomes with its next character. Where parameters have
begun they may be followed only by more of them; any other sign makes the rest meaningless. -/
def afterDevice (head : Sequence) (c : Char) : Sequence :=
  if within 0x40 0x7e c then string
  else if within 0x20 0x2f c then deviceIntermediate
  else if within 0x30 0x3b c && head != deviceIntermediate then deviceParameters
  else if within 0x3c 0x3f c && head == device then deviceParameters
  else if within 0x30 0x3f c then string
  else head

/-- What a sequence becomes with its next character; none when it is complete. Two controls cancel
any sequence, and an escape starts another. -/
def advance (s : Sequence) (c : Char) : Option Sequence :=
  if c = '\x18' || c = '\x1a' then none
  else if c = '\x1b' then some escape
  else match s with
    | escape => afterEscape c
    | intermediate => if within 0x30 0x7e c then none else some intermediate
    | parameters => if within 0x40 0x7e c then none else some parameters
    | string => if holdsTerminator c then none else some string
    | command => if c = '\x07' then none else some command
    | device | deviceParameters | deviceIntermediate => some (afterDevice s c)

end Sequence

inductive Position
  /-- No sequence is open. -/
  | text
  /-- A sequence is open and hides what follows. -/
  | hidden (s : Sequence)
  /-- A sequence is open, but a layout control has broken it off. It goes on at the next character
  of ASCII that is not shown. -/
  | broken (s : Sequence)
deriving DecidableEq, Repr

namespace Position

def ofSequence : Option Sequence → Position
  | some s => hidden s
  | none => text

/-- The position after a character, and whether the character is shown. -/
def step (p : Position) (c : Char) : Position × Bool :=
  match p with
  | text => if c = '\x1b' then (hidden .escape, false) else (text, isShown c)
  | hidden s =>
    if s.yields && isLayout c then (broken s, true) else (ofSequence (s.advance c), false)
  | broken s =>
    if 0x80 ≤ c.toNat then (text, true)
    else if isShown c then (broken s, true)
    else (ofSequence (s.advance c), false)

end Position

def shownFrom (p : Position) : List Char → List Char
  | [] => []
  | c :: cs =>
    let (next, shown) := p.step c
    if shown then c :: shownFrom next cs else shownFrom next cs

/-- A text without its control sequences and without the controls that do not lay it out. -/
def visible (s : String) : String :=
  String.ofList (shownFrom .text s.toList)

end FilterRecord.Text.Controls
