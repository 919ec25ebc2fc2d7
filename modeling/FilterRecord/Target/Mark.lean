/- Target/Mark
   digest: The MARK target, which changes the mark of a packet, in its three record layouts. -/

import FilterRecord.Mask.Capability
import FilterRecord.Mask.Form
import FilterRecord.Options.Occurrence
import FilterRecord.Options.Register
import FilterRecord.Record.Field

set_option autoImplicit false
set_option relaxedAutoImplicit false

namespace FilterRecord

open Text
open Options (Entry Occurrence Operand Register)

inductive Mark
  /-- Revision 0 replaces the mark. -/
  | plain (mark : UInt64)
  /-- Revision 1 has a mode: 0 replaces, 1 keeps bits, 2 turns bits on. -/
  | moded (mark : UInt64) (mode : UInt8)
  /-- Revision 2 stores any operation as a masked word. -/
  | masked (word : MaskedWord)
deriving DecidableEq, Repr

namespace Mark

def name : String := "MARK"

namespace Id

@[match_pattern] abbrev setMark : Nat := 0
@[match_pattern] abbrev andMark : Nat := 1
@[match_pattern] abbrev orMark : Nat := 2
@[match_pattern] abbrev xorMark : Nat := 3
@[match_pattern] abbrev setXMark : Nat := 4

end Id

/-- The bits of the options that state an operation; each excludes the others. -/
def operationBits : UInt32 :=
  Options.bits [Id.setMark, Id.andMark, Id.orMark, Id.xorMark, Id.setXMark]

def table : List Entry :=
  [⟨"set-mark", Id.setMark, .masked, operationBits, false⟩,
    ⟨"and-mark", Id.andMark, .word32, operationBits, false⟩,
    ⟨"or-mark", Id.orMark, .word32, operationBits, false⟩,
    ⟨"xor-mark", Id.xorMark, .word32, operationBits, false⟩,
    ⟨"set-xmark", Id.setXMark, .masked, operationBits, false⟩]

def revisions : RevisionTable :=
  ⟨name, [(0, .setOnly), (1, .logical), (2, .masked)]⟩

def optionNames : OptionNames :=
  ⟨"set-mark", "and-mark", "or-mark", "xor-mark", "set-xmark"⟩

def create : UInt8 → Mark
  | 0 => plain 0
  | 1 => moded 0 0
  | _ => masked .zero

def revision : Mark → UInt8
  | plain _ => 0
  | moded _ _ => 1
  | masked _ => 2

def size : Mark → Nat
  | plain _ => Field.align 8
  | moded _ _ => Field.align 9
  | masked _ => Field.align 8

def operation? : Nat → Operand → Option Operation
  | Id.setMark, .masked w => some (.ofValueMask w.value w.mask)
  | Id.andMark, .word32 bits => some (.and bits)
  | Id.orMark, .word32 bits => some (.or bits)
  | Id.xorMark, .word32 bits => some (.xor bits)
  | Id.setXMark, .masked w => some (.setXor w.value w.mask)
  | _, _ => none

def store : Mark → Operation → Option Mark
  | plain _, .set value => some (plain value.toUInt64)
  | moded _ _, .set value => some (moded value.toUInt64 0)
  | moded _ _, .and bits => some (moded bits.toUInt64 1)
  | moded _ _, .or bits => some (moded bits.toUInt64 2)
  | masked _, op => some (masked op.encode)
  | _, _ => none

def apply (m : Mark) (o : Occurrence) : Except RuleError Mark :=
  match operation? o.entry.id o.operand with
  | none => .error o.unsupported
  | some op =>
    match revisions.check o.entry.name m.revision op.kind with
    | .error e => .error e
    | .ok () =>
      match m.store op with
      | some next => .ok next
      | none => .error o.unsupported

def missing : Mark → String
  | plain _ => "MARK target: Parameter --set-mark is required"
  | moded _ _ => "MARK target: Parameter --\x7bset,and,or\x7d-mark is required"
  | masked _ =>
    "MARK: One of the --set-xmark, --\x7band,or,xor,set\x7d-mark options is required"

def finalCheck (m : Mark) (seen : Register) : Except RuleError Unit :=
  if seen.intersects operationBits then .ok () else .error (.missingOption name m.missing)

/-- The name of a mode; there are three. -/
def modeName? : UInt8 → Option String
  | 0 => some "set"
  | 1 => some "and"
  | 2 => some "or"
  | _ => none

/-- The words of a listing with a mode. An unknown mode has none. -/
def listedMode (mark : UInt64) (mode : UInt8) : List String :=
  match modeName? mode with
  | some m => [name, m, Numeral.hex mark.toNat]
  | none => []

def savedMode (mark : UInt64) (mode : UInt8) : List String :=
  match modeName? mode with
  | some m => ["--" ++ m ++ "-mark", Numeral.hex mark.toNat]
  | none => []

def listedWords : Mark → List String
  | plain mark => listedMode mark 0
  | moded mark mode => listedMode mark mode
  | masked word => name :: word.ruleWords optionNames ""

def savedWords : Mark → List String
  | plain mark => savedMode mark 0
  | moded mark mode => savedMode mark mode
  | masked word => word.ruleWords optionNames "--"

/-- The new mark of a masked word as an expression. A full mask replaces, whatever the value. -/
def expression (w : MaskedWord) : String :=
  if w.mask = MaskedWord.fullMask then Numeral.hex w.value.toNat
  else match w.form with
    | .and bits => "mark and " ++ Numeral.hex bits.toNat
    | .or bits => "mark or " ++ Numeral.hex bits.toNat
    | .xor bits => "mark xor " ++ Numeral.hex bits.toNat
    | .set value => Numeral.hex value.toNat
    | .setMasked value mask =>
      "mark and " ++ Numeral.hex (~~~mask).toNat ++ " xor " ++ Numeral.hex value.toNat

/-- The nftables statement of a record; revision 0 has none. -/
def statement? : Mark → Option String
  | plain _ => none
  | moded mark mode =>
    let number := Numeral.hex mark.toNat
    match mode with
    | 0 => some ("meta mark set " ++ number)
    | 1 => some ("meta mark set mark and " ++ number)
    | 2 => some ("meta mark set mark or " ++ number)
    | _ => some "meta mark set"
  | masked word => some ("meta mark set " ++ expression word)

def pack : Mark → Field.Bytes
  | plain mark => Field.word64 mark
  | moded mark mode => Field.word64 mark ++ [mode] ++ Field.zeros 7
  | masked word => word.pack

def unpack (revision : UInt8) (record : Field.Bytes) : Except RuleError Mark := do
  let blank := create revision
  Field.checkSize name revision blank.size blank.size record
  match blank with
  | plain _ => return plain (← Field.get64 0 record)
  | moded _ _ => return moded (← Field.get64 0 record) (← Field.get8 8 record)
  | masked _ => return masked ⟨← Field.get32 0 record, ← Field.get32 4 record⟩

def help : Mark → String
  | plain _ => ofLines
    ["MARK target options:",
      "  --set-mark value    Set mark value"]
  | moded _ _ => ofLines
    ["MARK target options:",
      "  --set-mark value    Set mark value",
      "  --and-mark bits     Binary AND the mark with bits",
      "  --or-mark bits      Binary OR the mark with bits"]
  | masked _ => ofLines
    ["MARK target options:",
      "  --set-xmark value[/mask]  Clear bits in mask and XOR value into nfmark",
      "  --set-mark value[/mask]   Clear bits in mask and OR value into nfmark",
      "  --and-mark bits           Binary AND the nfmark with bits",
      "  --or-mark bits            Binary OR the nfmark with bits",
      "  --xor-mark bits           Binary XOR the nfmark with bits"]

end Mark

end FilterRecord
