/- Options/Register
   digest: The options a rule has shown so far, and which further option they rule out. -/

import FilterRecord.Options.Entry

set_option autoImplicit false
set_option relaxedAutoImplicit false

namespace FilterRecord.Options

/-- The options seen so far, one bit each. -/
structure Register where
  bits : UInt32
deriving DecidableEq, Repr

namespace Register

def empty : Register := ⟨0⟩

def isEmpty (r : Register) : Bool := r.bits == 0

def contains (r : Register) (id : Nat) : Bool := r.bits &&& bit id != 0

/-- One of the options of a mask has been seen. -/
def intersects (r : Register) (mask : UInt32) : Bool := r.bits &&& mask != 0

def add (r : Register) (e : Entry) : Register := ⟨r.bits ||| e.bit⟩

/-- An option may follow if it has not been seen and none that it excludes has. A conflict names
the first row of the table that takes part in it. -/
def check (r : Register) (extension : String) (table : List Entry) (e : Entry) :
    Except RuleError Unit :=
  if r.intersects e.bit then .error (.exclusion extension e.name e.name)
  else
    let clash := r.bits &&& e.excluded &&& ~~~e.bit
    if clash = 0 then .ok ()
    else
      let conflicting := match table.find? fun other => clash &&& other.bit != 0 with
        | some other => other.name
        | none => e.name
      .error (.exclusion extension e.name conflicting)

end Register

end FilterRecord.Options
