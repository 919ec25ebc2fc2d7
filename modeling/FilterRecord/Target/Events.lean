/- Target/Events
   digest: Comma-separated lists of event names as sets of bits. -/

import FilterRecord.Text.Blank

set_option autoImplicit false
set_option relaxedAutoImplicit false

namespace FilterRecord

open Text

/-- Event names, each with its bit. -/
abbrev EventTable := List (String × UInt32)

namespace EventTable

def connection : EventTable :=
  [("new", 0x1), ("related", 0x2), ("destroy", 0x4), ("reply", 0x8), ("assured", 0x10),
    ("protoinfo", 0x20), ("helper", 0x40), ("mark", 0x80), ("natseqinfo", 0x100),
    ("secmark", 0x200)]

def expectation : EventTable := [("new", 0x1)]

def bit? (t : EventTable) (name : String) : Option UInt32 :=
  (t.find? (·.1 == name)).map (·.2)

/-- The bits of names, or the first name that is not in the table. -/
def union (t : EventTable) : List String → Except String UInt32
  | [] => .ok 0
  | name :: rest =>
    match t.bit? name with
    | none => .error name
    | some bit => (t.union rest).map (bit ||| ·)

/-- The bits of a comma-separated list. An empty piece is a name too, and not one of the table. -/
def read (t : EventTable) (list : String) : Except String UInt32 :=
  t.union ((split (· == ',') list.toList).map String.ofList)

def namesOf (t : EventTable) (bits : UInt32) : List String :=
  (t.filter fun row => bits &&& row.2 != 0).map (·.1)

def display (t : EventTable) (bits : UInt32) : String :=
  joinWith "," (t.namesOf bits)

def unknown (name : String) : String :=
  "Unknown event type \"" ++ name ++ "\""

end EventTable

end FilterRecord
