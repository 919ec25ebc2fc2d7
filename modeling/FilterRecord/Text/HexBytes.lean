/- Text/HexBytes
   digest: Bytes written as two hexadecimal digits each, and the faults of a text that is not. -/

import FilterRecord.Text.Numeral
import FilterRecord.Text.Utf8

set_option autoImplicit false
set_option relaxedAutoImplicit false

namespace FilterRecord.Text.HexBytes

def digitsOf (b : UInt8) : List Char :=
  [Nat.digitChar (b.toNat / 16), Nat.digitChar (b.toNat % 16)]

def encode (bytes : List UInt8) : String :=
  String.ofList (bytes.flatMap digitsOf)

inductive Fault
  /-- A digit has no partner. -/
  | oddLength
  /-- The byte of the text at this position is no digit. -/
  | notDigit (byte : UInt8) (position : Nat)
deriving DecidableEq, Repr

/-- A byte as a quoted character: the usual escapes, and code points for what does not print. -/
def quoteByte (b : UInt8) : String :=
  let body :=
    if b == 0 then "\\0"
    else if b == 9 then "\\t"
    else if b == 10 then "\\n"
    else if b == 13 then "\\r"
    else if b == 39 then "\\'"
    else if b == 92 then "\\\\"
    else if b < 0x20 || (0x7f ≤ b && b ≤ 0xa0) || b == 0xad then
      "\\u\x7b" ++ Numeral.bareHex b.toNat ++ "\x7d"
    else String.singleton (Char.ofNat b.toNat)
  "'" ++ body ++ "'"

def Fault.message : Fault → String
  | .oddLength => "Odd number of digits"
  | .notDigit byte position =>
    "Invalid character " ++ quoteByte byte ++ " at position " ++ Numeral.decimal position

def digit (position : Nat) (b : UInt8) : Except Fault Nat :=
  match Numeral.digitValue (Char.ofNat b.toNat) with
  | some d => .ok d
  | none => .error (.notDigit b position)

/-- Digits in pairs, from a position on. -/
def decodeFrom (position : Nat) : List UInt8 → Except Fault (List UInt8)
  | high :: low :: rest => do
    let h ← digit position high
    let l ← digit (position + 1) low
    let bytes ← decodeFrom (position + 2) rest
    return UInt8.ofNat (h * 16 + l) :: bytes
  | _ => .ok []

/-- The bytes that a text writes. The length is judged first, then the digits from the left. -/
def decode (text : String) : Except Fault (List UInt8) :=
  let bytes := Utf8.encode text.toList
  if bytes.length % 2 = 1 then .error .oddLength else decodeFrom 0 bytes

end FilterRecord.Text.HexBytes
