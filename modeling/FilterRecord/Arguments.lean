/- Arguments
   digest: The option occurrences that a rule's tokens write, and an extension led through them. -/

import FilterRecord.Extension

set_option autoImplicit false
set_option relaxedAutoImplicit false

namespace FilterRecord

open Text
open Options (Entry Occurrence Operand Register)

/-- What the tokens of a rule are read by: an extension's name, revision and option table. -/
structure Grammar where
  extension : String
  revision : UInt8
  table : List Entry
deriving DecidableEq, Repr

/-- What the tokens of a rule say: its occurrences in order, and the options seen at the end or the
error that ends the reading. -/
structure Reading where
  occurrences : List Occurrence
  ending : Except RuleError Register

namespace Grammar

/-- The name in an option token, and its argument where it stands after an equals sign. -/
def nameOf? (token : String) : Option (String × Option String) :=
  match token.toList with
  | '-' :: '-' :: body =>
    match splitFirst '=' body with
    | some (name, argument) => some (String.ofList name, some (String.ofList argument))
    | none => some (String.ofList body, none)
  | _ => none

/-- The row that an option token names, and the argument within the token. -/
def entryOf (g : Grammar) (token : String) : Except RuleError (Entry × Option String) :=
  match nameOf? token with
  | none => .error (.unknownOption g.extension token)
  | some (name, inline) =>
    match g.table.find? (·.name == name) with
    | none => .error (.unknownOption g.extension token)
    | some e => .ok (e, inline)

/-- The argument of an option, and how many further tokens it takes: one, whatever it looks like,
unless the argument is in the option's own token. -/
def argumentOf (g : Grammar) (e : Entry) (inline : Option String) (rest : List String) :
    Except RuleError (Option String × Nat) :=
  if e.takesArgument then
    match inline, rest with
    | some argument, _ => .ok (some argument, 0)
    | none, argument :: _ => .ok (some argument, 1)
    | none, [] => .error (.missingArgument g.extension e.name)
  else if inline.isSome then
    .error (.badValue g.extension e.name
      ("option \"--" ++ e.name ++ "\" doesn't allow an argument"))
  else .ok (none, 0)

/-- The occurrence that a token starts, and how many further tokens it takes. The exclusions are
judged first, then the inversion, the presence of the argument and its conversion. -/
def occurrence (g : Grammar) (seen : Register) (inverted : Bool) (token : String)
    (rest : List String) : Except RuleError (Occurrence × Nat) := do
  let (e, inline) ← g.entryOf token
  seen.check g.extension g.table e
  if inverted && !e.invertible then throw (.notInvertible g.extension e.name)
  let (argument, taken) ← g.argumentOf e inline rest
  let operand ← Operand.read g.extension e argument
  return (⟨g.extension, g.revision, e, argument, operand, inverted⟩, taken)

def readFrom (g : Grammar) (seen : Register) (inverted : Bool) : List String → Reading
  | [] => ⟨[], if inverted then .error (.danglingInversion g.extension) else .ok seen⟩
  | token :: rest =>
    if token = "!" then
      if inverted then ⟨[], .error (.repeatedInversion g.extension)⟩
      else g.readFrom seen true rest
    else match g.occurrence seen inverted token rest with
      | .error e => ⟨[], .error e⟩
      | .ok (o, taken) =>
        let reading := g.readFrom (seen.add o.entry) false (rest.drop taken)
        ⟨o :: reading.occurrences, reading.ending⟩
  termination_by tokens => tokens.length
  decreasing_by
    · simp
    · simp only [List.length_drop, List.length_cons]
      omega

def read (g : Grammar) (tokens : List String) : Reading :=
  g.readFrom .empty false tokens

end Grammar

namespace Extension

def grammar (ext : Extension) : Grammar :=
  ⟨ext.name, ext.revision, ext.table⟩

/-- The extension after occurrences in order, up to the first that it refuses. -/
def applyAll (host : Context) : Extension → List Occurrence → Extension × Except RuleError Unit
  | ext, [] => (ext, .ok ())
  | ext, o :: rest =>
    match ext.apply host o with
    | (next, .ok ()) => next.applyAll host rest
    | (next, .error e) => (next, .error e)

/-- The extension after the tokens of a rule, and the options they contain. An option that the
extension refuses comes before an error in a later token. -/
def applyTokens (host : Context) (ext : Extension) (tokens : List String) :
    Extension × Except RuleError Register :=
  let reading := ext.grammar.read tokens
  match ext.applyAll host reading.occurrences with
  | (next, .error e) => (next, .error e)
  | (next, .ok ()) =>
    match reading.ending with
    | .error e => (next, .error e)
    | .ok seen => (next, (next.finalCheck seen).map fun _ => seen)

end Extension

end FilterRecord
