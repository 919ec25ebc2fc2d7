/- Match/States
   digest: TCP socket states by name, and the names that cover a set of states exactly. -/

import FilterRecord.Text.Blank

set_option autoImplicit false
set_option relaxedAutoImplicit false

namespace FilterRecord

open Text

/-- Names of socket states or of sets of them, each with the bits of its states. -/
abbrev StateTable := List (String × UInt32)

namespace StateTable

def all : UInt32 := 0x1ffe

def aggregates : StateTable :=
  [("ANY", 0x1ffe), ("NEW", 0x40c), ("ESTABLISHED", 0x2), ("CLOSING", 0xbf0)]

def single : StateTable :=
  [("TCP_ESTABLISHED", 0x2), ("TCP_SYN_SENT", 0x4), ("TCP_SYN_RECV", 0x8),
    ("TCP_FIN_WAIT1", 0x10), ("TCP_FIN_WAIT2", 0x20), ("TCP_TIME_WAIT", 0x40),
    ("TCP_CLOSE", 0x80), ("TCP_CLOSE_WAIT", 0x100), ("TCP_LAST_ACK", 0x200),
    ("TCP_LISTEN", 0x400), ("TCP_CLOSING", 0x800)]

/-- The bits of a name, in whatever case its letters are. -/
def bits? (name : String) : Option UInt32 :=
  ((aggregates ++ single).find? fun row => sameLetters row.1 name).map (·.2)

/-- The bits of names, if each is known. -/
def union? : List String → Option UInt32
  | [] => some 0
  | name :: rest =>
    match bits? name, union? rest with
    | some bits, some others => some (bits ||| others)
    | _, _ => none

/-- The bits of a comma-separated list; its empty pieces count for nothing. -/
def read? (list : String) : Option UInt32 :=
  union? (((split (· == ',') list.toList).filter (!·.isEmpty)).map String.ofList)

/-- The names that cover what is left, each row taken when all its states are left. -/
def coverFrom (left : UInt32) : StateTable → Option (List String)
  | [] => none
  | row :: rest =>
    if left &&& row.2 = row.2 then
      let remaining := left &&& ~~~row.2
      if remaining = 0 then some [row.1] else (coverFrom remaining rest).map (row.1 :: ·)
    else coverFrom left rest

def cover (t : StateTable) (states : UInt32) : Option (List String) :=
  if states &&& all = 0 then none else coverFrom (states &&& all) t

/-- The names of a set of states, those of sets first, if either table covers it. -/
def names? (states : UInt32) : Option (List String) :=
  match cover aggregates states with
  | some names => some names
  | none => cover single states

def display? (states : UInt32) : Option String :=
  (names? states).map (joinWith ",")

end StateTable

end FilterRecord
