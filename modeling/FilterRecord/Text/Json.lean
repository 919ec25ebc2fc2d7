/- Text/Json
   digest: JSON documents of records and lists of records, indented or on one line. -/

import FilterRecord.Text.Blank
import FilterRecord.Text.Numeral

set_option autoImplicit false
set_option relaxedAutoImplicit false

namespace FilterRecord.Text.Json

inductive Scalar
  | number (n : Nat)
  | text (s : String)
  | null
deriving DecidableEq, Repr

/-- The fields of an object, in the order in which they are written. -/
abbrev Fields := List (String × Scalar)

/-- A document: one scalar, one object or a list of objects. -/
inductive Document
  | scalar (value : Scalar)
  | object (fields : Fields)
  | list (objects : List Fields)
deriving DecidableEq, Repr

/-- A character within quotes. Control characters have short escapes or a code of four digits. -/
def escape (c : Char) : List Char :=
  match c with
  | '"' => ['\\', '"']
  | '\\' => ['\\', '\\']
  | '\x08' => ['\\', 'b']
  | '\x0c' => ['\\', 'f']
  | '\n' => ['\\', 'n']
  | '\r' => ['\\', 'r']
  | '\t' => ['\\', 't']
  | c =>
    if c.toNat < 32 then
      ['\\', 'u', '0', '0', Nat.digitChar (c.toNat / 16), Nat.digitChar (c.toNat % 16)]
    else [c]

def quote (s : String) : String :=
  "\"" ++ String.ofList (s.toList.flatMap escape) ++ "\""

def Scalar.render : Scalar → String
  | .number n => Numeral.decimal n
  | .text s => quote s
  | .null => "null"

def renderField (separator : String) (field : String × Scalar) : String :=
  quote field.1 ++ separator ++ field.2.render

/-- An object with a field to a line; `margin` stands before each of its lines but the first. -/
def renderObject (margin : String) (fields : Fields) : String :=
  if fields.isEmpty then "\x7b\x7d"
  else "\x7b\n" ++
    joinWith ",\n" (fields.map fun field => margin ++ "  " ++ renderField ": " field) ++
    "\n" ++ margin ++ "\x7d"

def renderCompact (fields : Fields) : String :=
  "\x7b" ++ joinWith "," (fields.map (renderField ":")) ++ "\x7d"

/-- A document with two blanks to a level. -/
def Document.render : Document → String
  | .scalar value => value.render
  | .object fields => renderObject "" fields
  | .list objects =>
    if objects.isEmpty then "[]"
    else "[\n" ++ joinWith ",\n" (objects.map fun fields => "  " ++ renderObject "  " fields) ++
      "\n]"

end FilterRecord.Text.Json
