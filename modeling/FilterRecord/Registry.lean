/- Registry
   digest: The names and revisions under which extensions are known. -/

import FilterRecord.Extension

set_option autoImplicit false
set_option relaxedAutoImplicit false

namespace FilterRecord

/-- A name and revision under which an extension is known. -/
structure Registration where
  name : String
  /-- The name of the kernel's extension. -/
  realName : String
  part : RulePart
  revision : UInt8
  family : Extension.Family
deriving DecidableEq, Repr

namespace Registration

def create (r : Registration) : Extension := r.family.create r.revision

def unpack (r : Registration) (record : Field.Bytes) : Except RuleError Extension :=
  r.family.unpack r.revision record

end Registration

namespace Registry

def group (name realName : String) (part : RulePart) (family : Extension.Family)
    (revisions : List UInt8) : List Registration :=
  revisions.map fun revision => ⟨name, realName, part, revision, family⟩

def all : List Registration :=
  group "MARK" "MARK" .target .mark [0, 1, 2] ++
  group "CLASSIFY" "CLASSIFY" .target .classify [0, 1] ++
  group "IPMARK" "IPMARK" .target .ipMark [1, 2] ++
  group "CT" "CT" .target .connTrack [0, 1, 2] ++
  group "NOTRACK" "CT" .target .noTrack [0, 1, 2] ++
  group "socket" "socket" .condition .socket [0, 1, 2, 3, 4] ++
  group "rpfilter" "rpfilter" .condition .reversePath [0, 1]

def latest? (name : String) : Option UInt8 :=
  ((all.filter (·.name == name)).map (·.revision)).max?

/-- The registration of a name at a revision, or at its latest one. -/
def lookup (name : String) (revision : Option UInt8) : Except RuleError Registration :=
  let found := match revision <|> latest? name with
    | none => none
    | some wanted => all.find? fun r => r.name == name && r.revision == wanted
  match found with
  | some r => .ok r
  | none => .error (.unknownExtension name revision)

end Registry

end FilterRecord
