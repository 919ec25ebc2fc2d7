/- Rule
   digest: Rules into records, and records into rules, under registered names. -/

import FilterRecord.Arguments
import FilterRecord.Registry

set_option autoImplicit false
set_option relaxedAutoImplicit false

namespace FilterRecord

open Text

/-- A record as it is shown. -/
structure RecordView where
  /-- The registered name. -/
  extension : String
  revision : UInt8
  size : Nat
  record : Field.Bytes
  listed : String
  saved : String
  statement : Option String
deriving DecidableEq, Repr

/-- A record made from a rule, with the rule's own text. -/
structure RuleView where
  part : RulePart
  view : RecordView
  rule : String
deriving DecidableEq, Repr

namespace Registration

def view (r : Registration) (host : Context) (numeric : Bool) (ext : Extension) : RecordView where
  extension := r.name
  revision := r.revision
  size := ext.size
  record := ext.pack
  listed := ext.listed host numeric
  saved := ext.saved host
  statement := ext.statement?

/-- The text of a rule: its part, the registered name and the options. -/
def ruleText (r : Registration) (host : Context) (ext : Extension) : String :=
  ext.part.flag ++ " " ++ r.name ++ ext.saved host

end Registration

namespace Rule

/-- The record that the options of a rule write, at a revision or at the latest one. -/
def parse (name : String) (revision : Option UInt8) (tokens : List String) (numeric : Bool)
    (host : Context) : Except RuleError RuleView := do
  let r ← Registry.lookup name revision
  let (ext, outcome) := r.create.applyTokens host tokens
  let _ ← outcome
  return ⟨r.part, r.view host numeric ext, r.ruleText host ext⟩

/-- The rule that a record stands for. -/
def describe (name : String) (revision : UInt8) (record : Field.Bytes) (numeric : Bool)
    (host : Context) : Except RuleError RecordView := do
  let r ← Registry.lookup name (some revision)
  let ext ← r.unpack record
  return r.view host numeric ext

def statement (name : String) (revision : UInt8) (record : Field.Bytes) :
    Except RuleError (Option String) := do
  let r ← Registry.lookup name (some revision)
  let ext ← r.unpack record
  return ext.statement?

def help (name : String) (revision : Option UInt8) : Except RuleError String := do
  let r ← Registry.lookup name revision
  return r.create.help

end Rule

end FilterRecord
