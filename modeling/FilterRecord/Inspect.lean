/- Inspect
   digest: Operations, options, records and errors in the wording of the notes for developers. -/

import FilterRecord.Extension
import FilterRecord.Text.Quoted

set_option autoImplicit false
set_option relaxedAutoImplicit false

namespace FilterRecord

open Text
open Text.Numeral (decimal)
open Text.Quoted (Repertoire quote around record)

/-! ## Masked words -/

def MaskedWord.parts (w : MaskedWord) : List (String × String) :=
  [("value", decimal w.value.toNat), ("mask", decimal w.mask.toNat)]

def MaskedWord.inspect (w : MaskedWord) : String := record "MaskedValue" w.parts

def Operation.inspect : Operation → String
  | .set value => around "Set" (decimal value.toNat)
  | .and bits => around "And" (decimal bits.toNat)
  | .or bits => around "Or" (decimal bits.toNat)
  | .xor bits => around "Xor" (decimal bits.toNat)
  | .setMasked value mask => record "SetMasked" (MaskedWord.parts ⟨value, mask⟩)
  | .setXor value mask => record "SetXor" (MaskedWord.parts ⟨value, mask⟩)

def Operation.Kind.inspect : Operation.Kind → String
  | .set => "Set"
  | .and => "And"
  | .or => "Or"
  | .xor => "Xor"
  | .setMasked => "SetMasked"
  | .setXor => "SetXor"

def Form.inspect : Form → String
  | .and bits => around "And" (decimal bits.toNat)
  | .or bits => around "Or" (decimal bits.toNat)
  | .xor bits => around "Xor" (decimal bits.toNat)
  | .set value => around "Set" (decimal value.toNat)
  | .setMasked value mask => record "SetMasked" (MaskedWord.parts ⟨value, mask⟩)

/-- The names of the kinds in a set, and the number of the bits that stand for none. -/
def Capabilities.inspect (c : Capabilities) : String :=
  let kinds : List (Operation.Kind × String) :=
    [(.set, "SET"), (.and, "AND"), (.or, "OR"), (.xor, "XOR"), (.setMasked, "SET_MASKED"),
      (.setXor, "SET_XOR")]
  let known := (kinds.filter fun kind => c.allows kind.1).map (·.2)
  let others := c.bits &&& ~~~Capabilities.masked.bits
  let names := known ++ if others = 0 then [] else [Numeral.hex others.toNat]
  around "Capabilities" (if names.isEmpty then Numeral.hex 0 else joinWith " | " names)

/-! ## Options -/

def Options.Operand.inspect (repertoire : Repertoire) : Options.Operand → String
  | .absent => "None"
  | .word8 n => around "U8" (decimal n.toNat)
  | .word16 n => around "U16" (decimal n.toNat)
  | .word32 n => around "U32" (decimal n.toNat)
  | .masked word => record "Mark" word.parts
  | .text s => around "Str" (quote repertoire s)
  | .prefixLength n => around "PrefixLen" (decimal n.toNat)

/-! ## Records -/

def Mark.inspect : Mark → String
  | plain mark => record "V0" [("mark", decimal mark.toNat)]
  | moded mark mode => record "V1" [("mark", decimal mark.toNat), ("mode", decimal mode.toNat)]
  | masked word => around "V2" word.inspect

def Classify.inspect : Classify → String
  | plain priority => record "V0" [("priority", decimal priority.toNat)]
  | masked word => around "V1" word.inspect

def IpMark.inspect : IpMark → String
  | address andMask orMask selector shift => record "V1"
    [("andmask", decimal andMask.toNat), ("ormask", decimal orMask.toNat),
      ("selector", decimal selector.toNat), ("shift", decimal shift.toNat)]
  | masked word flags shift => record "V2"
    [("mark", word.inspect), ("flags", decimal flags.toNat), ("shift", decimal shift.toNat)]

def ConnTrack.inspect (repertoire : Repertoire) (t : ConnTrack) : String :=
  record "CtRecord"
    [("flags", decimal t.flags.toNat), ("zone", decimal t.zone.toNat),
      ("ct_events", decimal t.events.toNat), ("exp_events", decimal t.expectations.toNat),
      ("helper", quote repertoire t.helper), ("timeout", quote repertoire t.timeout)]

def SocketMatch.inspect (m : SocketMatch) : String :=
  record "SocketRecord"
    [("flags", decimal m.flags.toNat), ("invflags", decimal m.inverted.toNat),
      ("state", decimal m.states.toNat), ("uid_min", decimal m.users.first.toNat),
      ("uid_max", decimal m.users.last.toNat), ("gid_min", decimal m.groups.first.toNat),
      ("gid_max", decimal m.groups.last.toNat)]

def ReversePath.inspect (m : ReversePath) : String :=
  record "RpfilterRecord"
    [("flags", decimal m.flags.toNat), ("prefixlen", decimal m.prefixLength.toNat),
      ("group", decimal m.group.value.toNat), ("group_mask", decimal m.group.mask.toNat)]

def Extension.inspect (repertoire : Repertoire) : Extension → String
  | mark m => m.inspect
  | classify c => c.inspect
  | ipMark m => m.inspect
  | connTrack t => t.inspect repertoire
  | socket m => m.inspect
  | reversePath m => m.inspect

/-! ## Errors -/

def Text.HexBytes.Fault.inspect : HexBytes.Fault → String
  | .oddLength => "OddLength"
  | .notDigit byte position => record "InvalidHexCharacter"
    [("c", HexBytes.quoteByte byte), ("index", decimal position)]

def RuleError.inspect (repertoire : Repertoire) (e : RuleError) : String :=
  let text := quote repertoire
  match e with
  | .unsupportedOption extension revision option inverted => record "UnsupportedOption"
    [("extension", text extension), ("revision", decimal revision.toNat),
      ("option", text option), ("inverted", Quoted.flag inverted)]
  | .exclusion extension option conflicting => record "MutualExclusion"
    [("extension", text extension), ("option", text option), ("conflicting", text conflicting)]
  | .outOfRange extension option value low high => record "OperandOutOfRange"
    [("extension", text extension), ("option", text option), ("value", text value),
      ("min", decimal low), ("max", decimal high)]
  | .missingOption extension message => record "MissingRequiredOperation"
    [("extension", text extension), ("message", text message)]
  | .badValue extension option message => record "BadValue"
    [("extension", text extension), ("option", text option), ("message", text message)]
  | .notInvertible extension option => record "CannotInvert"
    [("extension", text extension), ("option", text option)]
  | .unknownOption extension token => record "UnknownOption"
    [("extension", text extension), ("option", text token)]
  | .missingArgument extension option => record "MissingArgument"
    [("extension", text extension), ("option", text option)]
  | .unknownExtension name revision => record "UnknownExtension"
    [("name", text name), ("revision", match revision with
      | some r => around "Some" (decimal r.toNat)
      | none => "None")]
  | .recordSize extension revision expected actual => record "InvalidRecord"
    [("extension", text extension), ("revision", decimal revision.toNat),
      ("expected", decimal expected), ("actual", decimal actual)]
  | .resource message => around "Resource" (text message)
  | .inputOutput message => around "IoError" (text message)
  | .hex fault => around "HexError" fault.inspect
  | .repeatedInversion .. | .danglingInversion .. | .shortField .. | .shortName ..
  | .noStatement .. | .other .. => around "Generic" (text e.message)

end FilterRecord
