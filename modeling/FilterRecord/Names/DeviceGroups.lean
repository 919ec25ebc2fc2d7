/- Names/DeviceGroups
   digest: The map between device group numbers and names, one pair to a line. -/

import FilterRecord.Names.HostFile
import FilterRecord.Text.Blank
import FilterRecord.Text.Numeral

set_option autoImplicit false
set_option relaxedAutoImplicit false

namespace FilterRecord

open Text

/-- Device groups in the order of their file. -/
structure DeviceGroups where
  entries : List (UInt32 × String)
deriving DecidableEq, Repr

namespace DeviceGroups

def empty : DeviceGroups := ⟨[]⟩

inductive Defect
  /-- There are not two fields. -/
  | fields
  /-- The first field is no number of 32 bits. -/
  | badId (text : String)
deriving DecidableEq, Repr

/-- The first line that is wrong, counted from one. -/
structure LineFault where
  line : Nat
  defect : Defect
deriving DecidableEq, Repr

def LineFault.message (f : LineFault) : String :=
  "line " ++ Numeral.decimal f.line ++ ": " ++
    match f.defect with
    | .fields => "expected \"<id> <name>\""
    | .badId text => "bad id \"" ++ text ++ "\""

/-- The group of a line: none for a line that is blank or a comment. -/
def readLine (line : List Char) : Except Defect (Option (UInt32 × String)) :=
  let body := trimStart line
  if body.isEmpty || body.head? = some '#' then .ok none
  else match words body with
    | id :: name :: _ =>
      match Numeral.word32? id with
      | some n => .ok (some (n, String.ofList name))
      | none => .error (.badId (String.ofList id))
    | _ => .error .fields

/-- The groups of lines of which the first has the given number. -/
def readLines (number : Nat) : List (List Char) → Except LineFault (List (UInt32 × String))
  | [] => .ok []
  | line :: rest =>
    match readLine line with
    | .error defect => .error ⟨number, defect⟩
    | .ok group =>
      match readLines (number + 1) rest with
      | .error fault => .error fault
      | .ok groups => .ok (group.toList ++ groups)

def ofText (text : String) : Except LineFault DeviceGroups :=
  (readLines 1 (lines text.toList)).map (⟨·⟩)

/-- Why a file gives no map. -/
inductive LoadFault
  | unreadable (path : String) (fault : Names.ReadFault)
  | malformed (path : String) (fault : LineFault)
deriving DecidableEq, Repr

def LoadFault.message : LoadFault → String
  | .unreadable path fault => Names.unreadable path fault
  | .malformed path fault => path ++ ": " ++ fault.message

def ofFile (path : String) (contents : Names.Contents) : Except LoadFault DeviceGroups :=
  match Names.textOf contents with
  | .error fault => .error (.unreadable path fault)
  | .ok text =>
    match ofText text with
    | .error fault => .error (.malformed path fault)
    | .ok map => .ok map

/-- The map in a file that a rule can do without, and what to warn of. A missing file is no cause
for a warning. -/
def ofOptionalFile (path : String) (contents : Names.Contents) :
    Option DeviceGroups × Option LoadFault :=
  match ofFile path contents with
  | .ok map => (some map, none)
  | .error (.unreadable _ .missing) => (none, none)
  | .error fault => (none, some fault)

def idOf? (m : DeviceGroups) (name : String) : Option UInt32 :=
  (m.entries.find? (·.2 == name)).map (·.1)

def nameOf? (m : DeviceGroups) (id : UInt32) : Option String :=
  (m.entries.find? (·.1 == id)).map (·.2)

end DeviceGroups

end FilterRecord
