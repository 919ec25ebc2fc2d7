/- Target/IpMark
   digest: The IPMARK target, which derives a mark from an address, in its two layouts. -/

import FilterRecord.Mask.Capability
import FilterRecord.Mask.Form
import FilterRecord.Options.Occurrence
import FilterRecord.Options.Register
import FilterRecord.Record.Field

set_option autoImplicit false
set_option relaxedAutoImplicit false

namespace FilterRecord

open Text
open Options (Entry Occurrence Operand Register)

inductive IpMark
  /-- Revision 1 masks the address; selector 0 takes the source, 1 the destination. -/
  | address (andMask orMask : UInt32) (selector shift : UInt8)
  /-- Revision 2 stores any operation as a masked word; flag 1 takes the destination. -/
  | masked (word : MaskedWord) (flags shift : UInt8)
deriving DecidableEq, Repr

namespace IpMark

def name : String := "IPMARK"

namespace Id

@[match_pattern] abbrev address : Nat := 0
@[match_pattern] abbrev source : Nat := 1
@[match_pattern] abbrev destination : Nat := 2
@[match_pattern] abbrev shift : Nat := 3
@[match_pattern] abbrev andMask : Nat := 4
@[match_pattern] abbrev orMask : Nat := 5
@[match_pattern] abbrev setMark : Nat := 6
@[match_pattern] abbrev andMark : Nat := 7
@[match_pattern] abbrev orMark : Nat := 8
@[match_pattern] abbrev xorMark : Nat := 9
@[match_pattern] abbrev setXMark : Nat := 10

end Id

/-- The bits of the options that select an address; each excludes the others. -/
def addressBits : UInt32 :=
  Options.bits [Id.address, Id.source, Id.destination]

def operationBits : UInt32 :=
  Options.bits [Id.setMark, Id.andMark, Id.orMark, Id.xorMark, Id.setXMark]

def table : List Entry :=
  [⟨"addr", Id.address, .text, addressBits, false⟩,
    ⟨"src-addr", Id.source, .flag, addressBits, false⟩,
    ⟨"dst-addr", Id.destination, .flag, addressBits, false⟩,
    ⟨"shift", Id.shift, .word8, 0, false⟩,
    ⟨"and-mask", Id.andMask, .word32, 0, false⟩,
    ⟨"or-mask", Id.orMask, .word32, 0, false⟩,
    ⟨"set-mark", Id.setMark, .masked, operationBits, false⟩,
    ⟨"and-mark", Id.andMark, .word32, operationBits, false⟩,
    ⟨"or-mark", Id.orMark, .word32, operationBits, false⟩,
    ⟨"xor-mark", Id.xorMark, .word32, operationBits, false⟩,
    ⟨"set-xmark", Id.setXMark, .masked, operationBits, false⟩]

/-- The operations that each revision stores: revision 1 none. -/
def revisions : RevisionTable :=
  ⟨name, [(2, .masked)]⟩

def optionNames : OptionNames :=
  ⟨"set-mark", "and-mark", "or-mark", "xor-mark", "set-xmark"⟩

def create : UInt8 → IpMark
  | 0 | 1 => address MaskedWord.fullMask 0 0 0
  | _ => masked .zero 0 0

def revision : IpMark → UInt8
  | address .. => 1
  | masked .. => 2

def size : Nat := Field.align 10

/-- The record that takes the source address. The second layout cannot take back a destination. -/
def selectSource : IpMark → IpMark
  | address andMask orMask _ shift => address andMask orMask 0 shift
  | masked word flags shift => masked word flags shift

/-- The record that takes the destination address. -/
def selectDestination : IpMark → IpMark
  | address andMask orMask _ shift => address andMask orMask 1 shift
  | masked word flags shift => masked word (flags ||| 1) shift

def withShift (shift : UInt8) : IpMark → IpMark
  | address andMask orMask selector _ => address andMask orMask selector shift
  | masked word flags _ => masked word flags shift

def operation? : Nat → Operand → Option Operation
  | Id.setMark, .masked w => some (.ofValueMask w.value w.mask)
  | Id.andMark, .word32 bits => some (.and bits)
  | Id.orMark, .word32 bits => some (.or bits)
  | Id.xorMark, .word32 bits => some (.xor bits)
  | Id.setXMark, .masked w => some (.setXor w.value w.mask)
  | _, _ => none

def store : IpMark → Operation → Option IpMark
  | masked _ flags shift, op => some (masked op.encode flags shift)
  | address .., _ => none

/-- The record after an option that states an operation, or after one that has no such argument. -/
def applyOperation (m : IpMark) (o : Occurrence) : Except RuleError IpMark :=
  match operation? o.entry.id o.operand with
  | none => .error o.unsupported
  | some op =>
    match revisions.check o.entry.name m.revision op.kind with
    | .error e => .error e
    | .ok () =>
      match m.store op with
      | some next => .ok next
      | none => .error o.unsupported

def apply (m : IpMark) (o : Occurrence) : Except RuleError IpMark :=
  match o.entry.id, o.operand with
  | Id.address, .text which =>
    if which = "src" then .ok m.selectSource
    else if which = "dst" then .ok m.selectDestination
    else .error (o.badValue ("Parameter --addr requires either \"src\" or \"dst\" as its " ++
      "argument, but \"" ++ which ++ "\" is given"))
  | Id.source, _ => .ok m.selectSource
  | Id.destination, _ => .ok m.selectDestination
  | Id.shift, .word8 shift => .ok (m.withShift shift)
  | Id.andMask, .word32 bits =>
    match m with
    | address _ orMask selector shift => .ok (address bits orMask selector shift)
    | masked .. => .error o.unsupported
  | Id.orMask, .word32 bits =>
    match m with
    | address andMask _ selector shift => .ok (address andMask bits selector shift)
    | masked .. => .error o.unsupported
  | _, _ => m.applyOperation o

def missing : IpMark → String
  | address .. => "IPMARK target: Parameter --addr \x7bsrc|dst\x7d is required"
  | masked .. => "IPMARK target: Parameter --\x7bsrc|dst\x7d-addr is required"

def finalCheck (m : IpMark) (seen : Register) : Except RuleError Unit :=
  if seen.intersects addressBits then .ok () else .error (.missingOption name m.missing)

def shiftWords (dash : String) (shift : UInt8) : List String :=
  if shift = 0 then [] else [dash ++ "shift", Numeral.decimal shift.toNat]

/-- The words of the record in a rule; `dash` stands before the options' names. An unknown
selector has none. -/
def ruleWords (dash : String) : IpMark → List String
  | address andMask orMask selector shift =>
    if 1 < selector then []
    else
      [dash ++ "addr", if selector = 0 then "src" else "dst"] ++ shiftWords dash shift ++
      (if andMask = MaskedWord.fullMask then []
        else [dash ++ "and-mask", Numeral.hex andMask.toNat]) ++
      (if orMask = 0 then [] else [dash ++ "or-mask", Numeral.hex orMask.toNat])
  | masked word flags shift =>
    [dash ++ (if flags &&& 1 = 0 then "src" else "dst") ++ "-addr"] ++ shiftWords dash shift ++
      word.ruleWords optionNames dash

def listedWords (m : IpMark) : List String := name :: m.ruleWords ""

def savedWords (m : IpMark) : List String := m.ruleWords "--"

def pack : IpMark → Field.Bytes
  | address andMask orMask selector shift =>
    Field.word32 andMask ++ Field.word32 orMask ++ [selector, shift] ++ Field.zeros 6
  | masked word flags shift => word.pack ++ [flags, shift] ++ Field.zeros 6

def unpack (revision : UInt8) (record : Field.Bytes) : Except RuleError IpMark := do
  Field.checkSize name revision size size record
  let first ← Field.get32 0 record
  let second ← Field.get32 4 record
  let byte ← Field.get8 8 record
  let shift ← Field.get8 9 record
  match create revision with
  | address .. => return address first second byte shift
  | masked .. => return masked ⟨first, second⟩ byte shift

def help : IpMark → String
  | address .. => ofLines
    ["IPMARK target options:",
      "  --addr \x7bsrc|dst\x7d    Use source or destination ip address",
      "  --shift value       Shift MARK right by value",
      "  --and-mask bits     Binary AND the MARK with bits",
      "  --or-mask bits      Binary OR the MARK with bits"]
  | masked .. => ofLines
    ["IPMARK target options:",
      "  --src-addr                Use source address for MARK",
      "  --dst-addr                Use destination address for MARK",
      "  --shift value             Shift MARK right by value",
      "  --set-xmark value[/mask]  Clear bits in mask and XOR value into MARK",
      "  --set-mark value[/mask]   Clear bits in mask and OR value into MARK",
      "  --and-mark bits           Binary AND the MARK with bits",
      "  --or-mark bits            Binary OR the MARK with bits",
      "  --xor-mark bits           Binary XOR the MARK with bits"]

end IpMark

end FilterRecord
