/- Options/Occurrence
   digest: One option occurrence as an extension receives it, and its refusals. -/

import FilterRecord.Options.Entry

set_option autoImplicit false
set_option relaxedAutoImplicit false

namespace FilterRecord.Options

/-- One option of a rule, with its argument as written and as converted. -/
structure Occurrence where
  extension : String
  revision : UInt8
  entry : Entry
  argument : Option String
  operand : Operand
  inverted : Bool
deriving DecidableEq, Repr

namespace Occurrence

/-- The argument as written, empty for a flag. -/
def rawArgument (o : Occurrence) : String := o.argument.getD ""

def unsupported (o : Occurrence) : RuleError :=
  .unsupportedOption o.extension o.revision o.entry.name o.inverted

def badValue (o : Occurrence) (text : String) : RuleError :=
  .badValue o.extension o.entry.name text

end Occurrence

/-- A step that either replaces a state or leaves it as it was. -/
def commit {σ : Type} (state : σ) : Except RuleError σ → σ × Except RuleError Unit
  | .ok next => (next, .ok ())
  | .error e => (state, .error e)

end FilterRecord.Options
