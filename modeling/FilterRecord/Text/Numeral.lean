/- Text/Numeral
   digest: Unsigned numerals: a base from the first characters, then the longest run of digits. -/

set_option autoImplicit false
set_option relaxedAutoImplicit false

namespace FilterRecord.Text.Numeral

/-- The value of a digit or of a letter a to f in either case. -/
def digitValue (c : Char) : Option Nat :=
  if '0' ≤ c ∧ c ≤ '9' then some (c.toNat - 48)
  else if 'a' ≤ c ∧ c ≤ 'f' then some (c.toNat - 87)
  else if 'A' ≤ c ∧ c ≤ 'F' then some (c.toNat - 55)
  else none

def isDigit (base : Nat) (c : Char) : Bool :=
  match digitValue c with
  | some d => d < base
  | none => false

def valueOf (base : Nat) (digits : List Char) : Nat :=
  digits.foldl (fun n c => n * base + (digitValue c).getD 0) 0

/-- What follows the sign of base sixteen, if a digit does. -/
def hexBody? : List Char → Option (List Char)
  | '0' :: x :: d :: rest =>
    if (x == 'x' || x == 'X') && isDigit 16 d then some (d :: rest) else none
  | _ => none

/-- The base of a numeral and where its digits start: sixteen after 0x, eight from a 0 on, else
ten. -/
def start (cs : List Char) : Nat × List Char :=
  match hexBody? cs with
  | some body => (16, body)
  | none => if cs.head? = some '0' then (8, cs) else (10, cs)

/-- The longest numeral at the start of a text, with the rest of the text. There is none without a
digit, and none for a number of more than 64 bits. -/
def read? (cs : List Char) : Option (Nat × List Char) :=
  let (base, body) := start cs
  let digits := body.takeWhile (isDigit base)
  let n := valueOf base digits
  if digits.isEmpty then none
  else if n < 0x10000000000000000 then some (n, body.dropWhile (isDigit base))
  else none

/-- The value of a text that is a numeral and nothing more. -/
def whole? (cs : List Char) : Option Nat :=
  match read? cs with
  | some (n, []) => some n
  | _ => none

/-- The value of a numeral between two bounds, both included. -/
def bounded? (low high : Nat) (cs : List Char) : Option Nat :=
  (whole? cs).filter fun n => low ≤ n && n ≤ high

def word32? (cs : List Char) : Option UInt32 :=
  (bounded? 0 0xffffffff cs).map UInt32.ofNat

def decimal (n : Nat) : String :=
  String.ofList (Nat.toDigits 10 n)

def bareHex (n : Nat) : String :=
  String.ofList (Nat.toDigits 16 n)

def hex (n : Nat) : String :=
  "0x" ++ bareHex n

end FilterRecord.Text.Numeral
