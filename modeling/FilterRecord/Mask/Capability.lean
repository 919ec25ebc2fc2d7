/- Mask/Capability
   digest: Which kinds of operation each revision of an extension can store. -/

import FilterRecord.Error
import FilterRecord.Mask.Operation

set_option autoImplicit false
set_option relaxedAutoImplicit false

namespace FilterRecord

/-- A set of operation kinds, one bit for each. -/
structure Capabilities where
  bits : UInt8
deriving DecidableEq, Repr

namespace Capabilities

def empty : Capabilities := ⟨0⟩

def ofKind : Operation.Kind → Capabilities
  | .set => ⟨1⟩
  | .and => ⟨2⟩
  | .or => ⟨4⟩
  | .xor => ⟨8⟩
  | .setMasked => ⟨16⟩
  | .setXor => ⟨32⟩

/-- The kinds that these bits stand for; a bit of no kind is dropped. -/
def ofBits (bits : UInt8) : Capabilities := ⟨bits &&& 63⟩

def setOnly : Capabilities := ofKind .set

def logical : Capabilities := ⟨7⟩

def masked : Capabilities := ⟨63⟩

def allows (c : Capabilities) (kind : Operation.Kind) : Bool :=
  c.bits &&& (ofKind kind).bits == (ofKind kind).bits

end Capabilities

/-- The capabilities of an extension, in rows that each hold from a revision on. -/
structure RevisionTable where
  extension : String
  rows : List (UInt8 × Capabilities)
deriving Repr

namespace RevisionTable

/-- The capabilities of a revision: those of the last row that starts at or below it. -/
def capabilities (t : RevisionTable) (revision : UInt8) : Capabilities :=
  match t.rows.reverse.find? fun row => row.1 ≤ revision with
  | some row => row.2
  | none => .empty

/-- An option is supported when its revision can store the kind of operation it asks for. -/
def check (t : RevisionTable) (option : String) (revision : UInt8) (kind : Operation.Kind) :
    Except RuleError Unit :=
  if (t.capabilities revision).allows kind then .ok ()
  else .error (.unsupportedOption t.extension revision option false)

end RevisionTable

end FilterRecord
