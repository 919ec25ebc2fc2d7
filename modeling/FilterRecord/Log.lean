/- Log
   digest: The events of a run, and which of them a log setting delivers in which form. -/

import FilterRecord.Text.Controls
import FilterRecord.Text.Json

set_option autoImplicit false
set_option relaxedAutoImplicit false

namespace FilterRecord.Log

open Text

/-- The weight of an event, the gravest first. -/
inductive Level
  | error
  | warn
  | info
  | debug
  | trace
deriving DecidableEq, Repr

namespace Level

def rank : Level → Nat
  | error => 0
  | warn => 1
  | info => 2
  | debug => 3
  | trace => 4

/-- A threshold lets through its own level and what is graver. -/
def admits (threshold level : Level) : Bool := level.rank ≤ threshold.rank

def label : Level → String
  | error => "error"
  | warn => "warn"
  | info => "info"
  | debug => "debug"
  | trace => "trace"

def heading : Level → String
  | error => "ERROR"
  | warn => "WARN"
  | info => "INFO"
  | debug => "DEBUG"
  | trace => "TRACE"

def ofLabel? (s : String) : Option Level :=
  [error, warn, info, debug, trace].find? (·.label == s)

end Level

/-- An event, with the part of the program that it comes from. -/
structure Event where
  level : Level
  source : String
  message : String
deriving DecidableEq, Repr

inductive Form
  | plain
  | json
deriving DecidableEq, Repr

structure Setting where
  form : Form
  /-- The word for the threshold. -/
  word : String
deriving DecidableEq, Repr

namespace Setting

def standard : String := "warn"

/-- A setting is the word for a threshold, after a sign of the JSON form where that is wanted; the
sign alone stands for a threshold too. -/
def ofText (s : String) : Setting :=
  match s.toList with
  | 'j' :: 's' :: 'o' :: 'n' :: ':' :: rest => ⟨.json, String.ofList rest⟩
  | ['j', 's', 'o', 'n'] => ⟨.json, "info"⟩
  | _ => ⟨.plain, s⟩

/-- The threshold of a setting: none lets nothing through, and an unknown word means warnings. -/
def threshold (s : Setting) : Option Level :=
  if s.word = "off" then none else some ((Level.ofLabel? s.word).getD .warn)

def deliver (s : Setting) (events : List Event) : List Event :=
  match s.threshold with
  | none => []
  | some threshold => events.filter fun event => threshold.admits event.level

end Setting

def Event.render (form : Form) (event : Event) : String :=
  match form with
  | .plain => "[" ++ event.level.heading ++ " " ++ event.source ++ "] " ++ event.message
  | .json => Json.renderCompact
    [("@level", .text event.level.label), ("@message", .text event.message),
      ("@module", .text event.source)]

/-- What a log writes for an event: its line and a line feed. A plain line loses its controls, and
where it leaves a sequence open even the line feed, unless controls are kept. -/
def Event.written (form : Form) (keepsControls : Bool) (event : Event) : String :=
  let line := event.render form ++ "\n"
  match form with
  | .plain => if keepsControls then line else Controls.visible line
  | .json => line

def written (form : Form) (keepsControls : Bool) : List Event → String
  | [] => ""
  | event :: rest => event.written form keepsControls ++ written form keepsControls rest

inductive Sink
  | file
  | standardError
deriving DecidableEq, Repr

/-- A log goes to its file where it has the JSON form and the file opens. -/
def sink (form : Form) (opens : Bool) : Sink :=
  if form = .json && opens then .file else .standardError

end FilterRecord.Log
