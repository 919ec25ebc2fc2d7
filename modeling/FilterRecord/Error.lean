/- Error
   digest: Why a rule, a record or a command is refused, with the wording and the exit code. -/

import FilterRecord.Text.HexBytes

set_option autoImplicit false
set_option relaxedAutoImplicit false

namespace FilterRecord

open Text

/-- Why a rule, a record or a command is refused. -/
inductive RuleError
  /-- The revision of the extension cannot express an option of its table. -/
  | unsupportedOption (extension : String) (revision : UInt8) (option : String) (inverted : Bool)
  /-- Two options that exclude each other, or one option twice. -/
  | exclusion (extension : String) (option : String) (conflicting : String)
  /-- A numeric argument that is no numeral or lies outside its range. -/
  | outOfRange (extension : String) (option : String) (value : String) (low high : Nat)
  /-- A rule that ends without an option it needs. -/
  | missingOption (extension : String) (text : String)
  /-- An argument in a form that its option does not take. -/
  | badValue (extension : String) (option : String) (text : String)
  /-- An exclamation mark before an option without an inverted form. -/
  | notInvertible (extension : String) (option : String)
  /-- A token that names no option. -/
  | unknownOption (extension : String) (token : String)
  /-- An option whose argument is missing at the end of the rule. -/
  | missingArgument (extension : String) (option : String)
  /-- A second exclamation mark before one option. -/
  | repeatedInversion (extension : String)
  /-- An exclamation mark at the end of the rule. -/
  | danglingInversion (extension : String)
  /-- A name and revision that are not registered. -/
  | unknownExtension (name : String) (revision : Option UInt8)
  /-- A record of the wrong size. -/
  | recordSize (extension : String) (revision : UInt8) (expected actual : Nat)
  /-- A field that reaches over the end of a record. -/
  | shortField (width offset size : Nat)
  /-- A name slot that reaches over the end of a record. -/
  | shortName (width offset : Nat)
  /-- A record that no nftables statement expresses. -/
  | noStatement (extension : String) (revision : UInt8)
  /-- A file of the host that exists and cannot be used. -/
  | resource (text : String)
  /-- A failed input or output operation. -/
  | inputOutput (text : String)
  /-- A text that writes no bytes. -/
  | hex (fault : HexBytes.Fault)
  /-- Any other failure, in its own words. -/
  | other (text : String)
deriving DecidableEq, Repr

namespace RuleError

def message : RuleError → String
  | unsupportedOption extension revision option inverted =>
    "libxt_" ++ extension ++ "." ++ Numeral.decimal revision.toNat ++ " does not support " ++
      (if inverted then "! " else "") ++ "--" ++ option
  | exclusion extension option conflicting =>
    if option = conflicting then extension ++ ": option \"--" ++ option ++
      "\" can only be used once."
    else extension ++ ": option \"--" ++ option ++ "\" cannot be used together with \"--" ++
      conflicting ++ "\"."
  | outOfRange extension option value low high =>
    extension ++ ": bad value \"" ++ value ++ "\" for option \"--" ++ option ++
      "\", or out of range (" ++ Numeral.decimal low ++ "-" ++ Numeral.decimal high ++ ")."
  | missingOption _ text => text
  | badValue extension _ text => extension ++ ": " ++ text
  | notInvertible extension option =>
    extension ++ ": option \"--" ++ option ++ "\" cannot be inverted."
  | unknownOption extension token => extension ++ ": unknown option \"" ++ token ++ "\""
  | missingArgument extension option =>
    extension ++ ": option \"--" ++ option ++ "\" requires an argument"
  | repeatedInversion extension => extension ++ ": multiple \"!\" flags not allowed"
  | danglingInversion extension => extension ++ ": \"!\" is not followed by an option"
  | unknownExtension name revision =>
    "Couldn't load extension `" ++ name ++ "'" ++
      match revision with
      | some r => " revision " ++ Numeral.decimal r.toNat
      | none => ""
  | recordSize extension revision expected actual =>
    extension ++ "." ++ Numeral.decimal revision.toNat ++ ": record is " ++
      Numeral.decimal actual ++ " bytes, expected " ++ Numeral.decimal expected
  | shortField width offset size =>
    "Record too short for " ++ Numeral.decimal width ++ "-byte field at offset " ++
      Numeral.decimal offset ++ " (" ++ Numeral.decimal size ++ " bytes)"
  | shortName width offset =>
    "Record too short for " ++ Numeral.decimal width ++ "-byte name at offset " ++
      Numeral.decimal offset
  | noStatement extension revision =>
    extension ++ " revision " ++ Numeral.decimal revision.toNat ++ " has no nftables equivalent"
  | resource text => text
  | inputOutput text => "IO error: " ++ text
  | hex fault => "Hex error: " ++ fault.message
  | other text => text

/-- The exit code of a command that ends with an error: 2 for the options of a rule, 3 for an
unknown extension, 4 for unusable records and files, 1 for anything else. -/
def exitCode : RuleError → Nat
  | unsupportedOption .. | exclusion .. | outOfRange .. | missingOption .. | badValue ..
  | notInvertible .. | unknownOption .. | missingArgument .. => 2
  | unknownExtension .. => 3
  | recordSize .. | resource .. | inputOutput .. | hex .. => 4
  | repeatedInversion .. | danglingInversion .. | shortField .. | shortName ..
  | noStatement .. | other .. => 1

end RuleError

end FilterRecord
