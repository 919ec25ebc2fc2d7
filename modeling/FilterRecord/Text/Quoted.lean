/- Text/Quoted
   digest: Values as a developer sees them: quoted texts, and names with their parts. -/

import FilterRecord.Text.Blank
import FilterRecord.Text.Controls
import FilterRecord.Text.Numeral

set_option autoImplicit false
set_option relaxedAutoImplicit false

namespace FilterRecord.Text.Quoted

/-- The characters beyond ASCII that quotes show as they are. Which these are depends on the
edition of Unicode. -/
abbrev Repertoire := Char → Bool

/-- Controls, blanks, marks of direction, signs that join the letter before them, and characters
for private use. -/
def hiddenRanges : List (Nat × Nat) :=
  [(0x80, 0xa0), (0xad, 0xad), (0x300, 0x36f), (0x2000, 0x200f), (0x2028, 0x202f),
    (0x205f, 0x206f), (0x3000, 0x3000), (0xe000, 0xf8ff), (0xfe00, 0xfe0f), (0xfeff, 0xfeff),
    (0xfff0, 0xfffb), (0xfffe, 0xffff), (0xe0000, 0x10ffff)]

/-- The repertoire that leaves out the ranges of every edition. -/
def Repertoire.common : Repertoire := fun c =>
  !hiddenRanges.any fun range => Controls.within range.1 range.2 c

def code (c : Char) : List Char :=
  ['\\', 'u', '\x7b'] ++ (Numeral.bareHex c.toNat).toList ++ ['\x7d']

def isPlain (repertoire : Repertoire) (c : Char) : Bool :=
  if c.toNat < 0x80 then Controls.within 0x20 0x7e c else repertoire c

def escape (repertoire : Repertoire) (c : Char) : List Char :=
  match c with
  | '\x00' => ['\\', '0']
  | '\t' => ['\\', 't']
  | '\n' => ['\\', 'n']
  | '\r' => ['\\', 'r']
  | '"' => ['\\', '"']
  | '\\' => ['\\', '\\']
  | c => if isPlain repertoire c then [c] else code c

def quote (repertoire : Repertoire) (s : String) : String :=
  "\"" ++ String.ofList (s.toList.flatMap (escape repertoire)) ++ "\""

def around (name part : String) : String := name ++ "(" ++ part ++ ")"

/-- A name with parts that have names themselves. -/
def record (name : String) (parts : List (String × String)) : String :=
  name ++ " \x7b " ++ joinWith ", " (parts.map fun part => part.1 ++ ": " ++ part.2) ++ " \x7d"

def flag (b : Bool) : String := if b then "true" else "false"

end FilterRecord.Text.Quoted
