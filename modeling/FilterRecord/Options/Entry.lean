/- Options/Entry
   digest: The rows of an option table, and how the argument of each is converted. -/

import FilterRecord.Error
import FilterRecord.Mask.Word

set_option autoImplicit false
set_option relaxedAutoImplicit false

namespace FilterRecord.Options

open Text

inductive OperandKind
  /-- Nothing. -/
  | flag
  | word8
  | word16
  | word32
  /-- A value with an optional mask. -/
  | masked
  | text
  /-- The length of a route, 0 to 128. -/
  | prefixLength
deriving DecidableEq, Repr

inductive Operand
  | absent
  | word8 (n : UInt8)
  | word16 (n : UInt16)
  | word32 (n : UInt32)
  | masked (word : MaskedWord)
  | text (s : String)
  | prefixLength (n : UInt8)
deriving DecidableEq, Repr

structure Entry where
  /-- The option's name, without dashes. -/
  name : String
  /-- The number of the option's bit in a register. -/
  id : Nat
  kind : OperandKind
  /-- The bits of the options that may not come before this one. -/
  excluded : UInt32
  /-- An exclamation mark may stand before the option. -/
  invertible : Bool
deriving DecidableEq, Repr

def bit (id : Nat) : UInt32 :=
  1 <<< UInt32.ofNat id

def bits (ids : List Nat) : UInt32 :=
  ids.foldr (fun id rest => bit id ||| rest) 0

namespace Entry

def bit (e : Entry) : UInt32 := Options.bit e.id

/-- An option other than a flag takes an argument. -/
def takesArgument (e : Entry) : Bool := e.kind != .flag

end Entry

/-- A value and an optional mask after a stroke, each a numeral that fits 32 bits. Without a stroke
the mask is full. -/
def readMasked? (s : String) : Option MaskedWord :=
  match Numeral.read? s.toList with
  | none => none
  | some (value, rest) =>
    if 0x100000000 ≤ value then none
    else match rest with
      | [] => some ⟨UInt32.ofNat value, MaskedWord.fullMask⟩
      | '/' :: mask => (Numeral.word32? mask).map fun m => ⟨UInt32.ofNat value, m⟩
      | _ => none

namespace Operand

def bounded (extension : String) (e : Entry) (high : Nat) (s : String) : Except RuleError Nat :=
  match Numeral.bounded? 0 high s.toList with
  | some n => .ok n
  | none => .error (.outOfRange extension e.name s 0 high)

/-- The argument of an option, converted as its row says. -/
def ofText (extension : String) (e : Entry) (s : String) : Except RuleError Operand :=
  match e.kind with
  | .flag => .ok .absent
  | .word8 => (bounded extension e 255 s).map fun n => .word8 (UInt8.ofNat n)
  | .word16 => (bounded extension e 65535 s).map fun n => .word16 (UInt16.ofNat n)
  | .word32 => (bounded extension e 4294967295 s).map fun n => .word32 (UInt32.ofNat n)
  | .prefixLength => (bounded extension e 128 s).map fun n => .prefixLength (UInt8.ofNat n)
  | .text => .ok (.text s)
  | .masked =>
    match readMasked? s with
    | some word => .ok (.masked word)
    | none => .error (.outOfRange extension e.name s 0 4294967295)

/-- The conversion of an argument that may be absent. -/
def read (extension : String) (e : Entry) : Option String → Except RuleError Operand
  | some s => ofText extension e s
  | none => .ok .absent

end Operand

end FilterRecord.Options
