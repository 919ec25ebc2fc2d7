/- Target/Classify
   digest: The CLASSIFY target, which changes the traffic class of a packet, in its two layouts. -/

import FilterRecord.Mask.Capability
import FilterRecord.Mask.Form
import FilterRecord.Options.Occurrence
import FilterRecord.Options.Register
import FilterRecord.Record.Field

set_option autoImplicit false
set_option relaxedAutoImplicit false

namespace FilterRecord

open Text
open Options (Entry Occurrence Operand Register)

inductive Classify
  /-- Revision 0 replaces the class. -/
  | plain (priority : UInt32)
  /-- Revision 1 stores any operation as a masked word. -/
  | masked (word : MaskedWord)
deriving DecidableEq, Repr

namespace Classify

def name : String := "CLASSIFY"

namespace Id

@[match_pattern] abbrev setClass : Nat := 0
@[match_pattern] abbrev andClass : Nat := 1
@[match_pattern] abbrev orClass : Nat := 2
@[match_pattern] abbrev xorClass : Nat := 3
@[match_pattern] abbrev setXClass : Nat := 4

end Id

/-- The bits of the options that state an operation; each excludes the others. -/
def operationBits : UInt32 :=
  Options.bits [Id.setClass, Id.andClass, Id.orClass, Id.xorClass, Id.setXClass]

def table : List Entry :=
  [⟨"set-class", Id.setClass, .text, operationBits, false⟩,
    ⟨"and-class", Id.andClass, .word32, operationBits, false⟩,
    ⟨"or-class", Id.orClass, .word32, operationBits, false⟩,
    ⟨"xor-class", Id.xorClass, .word32, operationBits, false⟩,
    ⟨"set-xclass", Id.setXClass, .masked, operationBits, false⟩]

def revisions : RevisionTable :=
  ⟨name, [(0, .setOnly), (1, .masked)]⟩

def optionNames : OptionNames :=
  ⟨"set-class", "and-class", "or-class", "xor-class", "set-xclass"⟩

/-- A part of a handle: digits of base sixteen, after an optional sign of the base and an optional
plus, with a value of 16 bits. -/
def readHalf? (cs : List Char) : Option Nat :=
  let unsigned := match cs with
    | '0' :: 'x' :: rest => rest
    | '0' :: 'X' :: rest => rest
    | _ => cs
  let digits := match unsigned with
    | '+' :: rest => rest
    | _ => unsigned
  if digits.isEmpty || !digits.all (Numeral.isDigit 16) then none
  else
    let n := Numeral.valueOf 16 digits
    if n ≤ 0xffff then some n else none

/-- A class handle, MAJOR:MINOR. -/
def readHandle? (s : String) : Option UInt32 :=
  match splitFirst ':' s.toList with
  | none => none
  | some (major, minor) =>
    match readHalf? major, readHalf? minor with
    | some high, some low => some (UInt32.ofNat (high * 65536 + low))
    | _, _ => none

def handle (priority : UInt32) : String :=
  Numeral.bareHex (priority.toNat / 65536) ++ ":" ++ Numeral.bareHex (priority.toNat % 65536)

def create : UInt8 → Classify
  | 0 => plain 0
  | _ => masked .zero

def revision : Classify → UInt8
  | plain _ => 0
  | masked _ => 1

def size : Classify → Nat
  | plain _ => Field.align 4
  | masked _ => Field.align 8

/-- The class, when the record replaces it entirely. -/
def priority? : Classify → Option UInt32
  | plain priority => some priority
  | masked word => if word.mask = MaskedWord.fullMask then some word.value else none

/-- The operation of the option that takes a handle or, from revision 1 on, a value and a mask. -/
def readClass (c : Classify) (o : Occurrence) : Except RuleError Operation :=
  let bad := o.badValue ("Bad class value \"" ++ o.rawArgument ++ "\"")
  match readHandle? o.rawArgument with
  | some priority => .ok (.set priority)
  | none =>
    if c.revision < 1 then .error bad
    else match Options.readMasked? o.rawArgument with
      | some w => .ok (.ofValueMask w.value w.mask)
      | none => .error bad

def operation (c : Classify) (o : Occurrence) : Except RuleError Operation :=
  match o.entry.id, o.operand with
  | Id.setClass, .text _ => c.readClass o
  | Id.andClass, .word32 bits => .ok (.and bits)
  | Id.orClass, .word32 bits => .ok (.or bits)
  | Id.xorClass, .word32 bits => .ok (.xor bits)
  | Id.setXClass, .masked w => .ok (.setXor w.value w.mask)
  | _, _ => .error o.unsupported

def store : Classify → Operation → Option Classify
  | plain _, .set priority => some (plain priority)
  | masked _, op => some (masked op.encode)
  | _, _ => none

def apply (c : Classify) (o : Occurrence) : Except RuleError Classify :=
  match c.operation o with
  | .error e => .error e
  | .ok op =>
    match revisions.check o.entry.name c.revision op.kind with
    | .error e => .error e
    | .ok () =>
      match c.store op with
      | some next => .ok next
      | none => .error o.unsupported

def finalCheck (seen : Register) : Except RuleError Unit :=
  if seen.intersects operationBits then .ok ()
  else .error (.missingOption name
    "CLASSIFY: One of the --set-xclass, --\x7band,or,xor,set\x7d-class options is required")

def ruleWords (dash : String) : Classify → List String
  | plain priority => [dash ++ "set-class", handle priority]
  | masked word =>
    if word.mask = MaskedWord.fullMask then [dash ++ "set-class", handle word.value]
    else word.ruleWords optionNames dash

def listedWords (c : Classify) : List String := name :: c.ruleWords ""

def savedWords (c : Classify) : List String := c.ruleWords "--"

/-- The nftables name of a class: two handles have words of their own. -/
def className (priority : UInt32) : String :=
  if priority = 0xffffffff then "root"
  else if priority = 0 then "none"
  else handle priority

/-- The nftables statement of a record that replaces the class. -/
def statement? (c : Classify) : Option String :=
  c.priority?.map fun priority => "meta priority set " ++ className priority

def pack : Classify → Field.Bytes
  | plain priority => Field.word32 priority ++ Field.zeros 4
  | masked word => word.pack

def unpack (revision : UInt8) (record : Field.Bytes) : Except RuleError Classify := do
  let blank := create revision
  Field.checkSize name revision blank.size blank.size record
  match blank with
  | plain _ => return plain (← Field.get32 0 record)
  | masked _ => return masked ⟨← Field.get32 0 record, ← Field.get32 4 record⟩

def help (c : Classify) : String :=
  ofLines
    ["CLASSIFY target options:",
      "  --set-class MAJOR:MINOR    Set skb->priority value"] ++
  match c with
  | plain _ => ""
  | masked _ => ofLines
    ["or",
      "  --set-xclass value[/mask]  Clear bits in mask and XOR value into CLASS",
      "  --set-class value[/mask]   Clear bits in mask and OR value into CLASS",
      "  --and-class bits           Binary AND the CLASS with bits",
      "  --or-class bits            Binary OR the CLASS with bits",
      "  --xor-class bits           Binary XOR the CLASS with bits"]

end Classify

end FilterRecord
