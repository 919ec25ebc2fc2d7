/- Text/Blank
   digest: The blank characters, and how a text is cut at them and at other separators. -/

set_option autoImplicit false
set_option relaxedAutoImplicit false

namespace FilterRecord.Text

/-- The characters with the Unicode property White_Space. -/
def blanks : List Char :=
  ['\t', '\n', '\x0b', '\x0c', '\r', ' ', '\u0085', '\u00a0', '\u1680', '\u2000', '\u2001',
    '\u2002', '\u2003', '\u2004', '\u2005', '\u2006', '\u2007', '\u2008', '\u2009', '\u200a',
    '\u2028', '\u2029', '\u202f', '\u205f', '\u3000']

def isBlank (c : Char) : Bool :=
  blanks.contains c

def trimStart (cs : List Char) : List Char :=
  cs.dropWhile isBlank

def trimEnd (cs : List Char) : List Char :=
  (cs.reverse.dropWhile isBlank).reverse

def trim (cs : List Char) : List Char :=
  trimEnd (trimStart cs)

/-- The pieces between separators, empty ones included: one more than there are separators. -/
def split (isSeparator : Char → Bool) : List Char → List (List Char)
  | [] => [[]]
  | c :: cs =>
    if isSeparator c then [] :: split isSeparator cs
    else (split isSeparator cs).modifyHead (c :: ·)

/-- The parts before and after the first separator, if there is one. -/
def splitFirst (separator : Char) : List Char → Option (List Char × List Char)
  | [] => none
  | c :: cs =>
    if c = separator then some ([], cs)
    else (splitFirst separator cs).map fun parts => (c :: parts.1, parts.2)

/-- The words of a text: the non-empty pieces between blanks. -/
def words (cs : List Char) : List (List Char) :=
  (split isBlank cs).filter (!·.isEmpty)

/-- A line loses the carriage return that stands before its line feed. -/
def dropReturn (line : List Char) : List Char :=
  match line.getLast? with
  | some '\r' => line.dropLast
  | _ => line

/-- The lines of a text. A line feed ends a line, so nothing after the last one is no line, and
only a line that a line feed ends loses a carriage return. -/
def lines (cs : List Char) : List (List Char) :=
  let pieces := split (· == '\n') cs
  let last := pieces.getLastD []
  pieces.dropLast.map dropReturn ++ if last.isEmpty then [] else [last]

/-- Words set side by side, with a blank before each. -/
def render : List String → String
  | [] => ""
  | w :: ws => " " ++ w ++ render ws

/-- Texts joined by a separator, with none after the last. -/
def joinWith (separator : String) : List String → String
  | [] => ""
  | [t] => t
  | t :: ts => t ++ separator ++ joinWith separator ts

/-- Lines set one under another, each ended by a line feed. -/
def ofLines : List String → String
  | [] => ""
  | line :: rest => line ++ "\n" ++ ofLines rest

/-- Equality up to the case of the letters A to Z. -/
def sameLetters (a b : String) : Bool :=
  a.toList.map Char.toLower == b.toList.map Char.toLower

end FilterRecord.Text
