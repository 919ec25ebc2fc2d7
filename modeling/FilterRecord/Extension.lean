/- Extension
   digest: The extensions as one type, with what each can do. -/

import FilterRecord.Match.ReversePath
import FilterRecord.Match.Socket
import FilterRecord.Names.Context
import FilterRecord.Target.Classify
import FilterRecord.Target.ConnTrack
import FilterRecord.Target.IpMark
import FilterRecord.Target.Mark

set_option autoImplicit false
set_option relaxedAutoImplicit false

namespace FilterRecord

open Text
open Options (Entry Occurrence Register commit)

/-- Where an extension stands in a rule. -/
inductive RulePart
  | target
  | condition
deriving DecidableEq, Repr

namespace RulePart

def label : RulePart → String
  | target => "target"
  | condition => "match"

def flag : RulePart → String
  | target => "-j"
  | condition => "-m"

end RulePart

/-- One extension of a rule with its record. -/
inductive Extension
  | mark (m : Mark)
  | classify (c : Classify)
  | ipMark (m : IpMark)
  | connTrack (t : ConnTrack)
  | socket (m : SocketMatch)
  | reversePath (m : ReversePath)
deriving DecidableEq, Repr

namespace Extension

def name : Extension → String
  | mark _ => Mark.name
  | classify _ => Classify.name
  | ipMark _ => IpMark.name
  | connTrack _ => ConnTrack.name
  | socket _ => SocketMatch.name
  | reversePath _ => ReversePath.name

/-- The name under which the extension is shown. -/
def shownName : Extension → String
  | connTrack t => t.shownName
  | ext => ext.name

def part : Extension → RulePart
  | mark _ | classify _ | ipMark _ | connTrack _ => .target
  | socket _ | reversePath _ => .condition

def revision : Extension → UInt8
  | mark m => m.revision
  | classify c => c.revision
  | ipMark m => m.revision
  | connTrack t => t.revision
  | socket m => m.revision
  | reversePath m => m.revision

def table : Extension → List Entry
  | mark _ => Mark.table
  | classify _ => Classify.table
  | ipMark _ => IpMark.table
  | connTrack t => t.table
  | socket m => m.table
  | reversePath _ => ReversePath.table

def help : Extension → String
  | mark m => m.help
  | classify c => c.help
  | ipMark m => m.help
  | connTrack t => t.help
  | socket m => m.help
  | reversePath _ => ReversePath.help

/-- The extension after an option of its rule. A refused option may still leave a trace. -/
def apply (host : Context) : Extension → Occurrence → Extension × Except RuleError Unit
  | mark m, o => commit (mark m) ((m.apply o).map mark)
  | classify c, o => commit (classify c) ((c.apply o).map classify)
  | ipMark m, o => commit (ipMark m) ((m.apply o).map ipMark)
  | connTrack t, o => ((t.apply o).map connTrack id)
  | socket m, o => commit (socket m) ((m.apply host.accounts o).map socket)
  | reversePath m, o => commit (reversePath m) ((m.apply host.deviceGroups o).map reversePath)

def finalCheck : Extension → Register → Except RuleError Unit
  | mark m, seen => m.finalCheck seen
  | classify _, seen => Classify.finalCheck seen
  | ipMark m, seen => m.finalCheck seen
  | connTrack _, _ | socket _, _ | reversePath _, _ => .ok ()

def listedWords (host : Context) (numeric : Bool) : Extension → List String
  | mark m => m.listedWords
  | classify c => c.listedWords
  | ipMark m => m.listedWords
  | connTrack t => t.listedWords
  | socket m => m.listedWords host.accounts numeric
  | reversePath m => m.listedWords host.deviceGroups numeric

def savedWords (host : Context) : Extension → List String
  | mark m => m.savedWords
  | classify c => c.savedWords
  | ipMark m => m.savedWords
  | connTrack t => t.savedWords
  | socket m => m.savedWords host.accounts
  | reversePath m => m.savedWords host.deviceGroups

def listed (host : Context) (numeric : Bool) (ext : Extension) : String :=
  render (ext.listedWords host numeric)

def saved (host : Context) (ext : Extension) : String :=
  render (ext.savedWords host)

def statement? : Extension → Option String
  | mark m => m.statement?
  | classify c => c.statement?
  | reversePath m => m.statement?
  | ipMark _ | connTrack _ | socket _ => none

def size : Extension → Nat
  | mark m => m.size
  | classify c => c.size
  | ipMark _ => IpMark.size
  | connTrack t => ConnTrack.size t.revision
  | socket m => SocketMatch.size m.revision
  | reversePath m => ReversePath.size m.revision

/-- The size of the part of the record that userspace owns. -/
def userspaceSize : Extension → Nat
  | connTrack t => ConnTrack.userspaceSize t.revision
  | ext => ext.size

def pack : Extension → Field.Bytes
  | mark m => m.pack
  | classify c => c.pack
  | ipMark m => m.pack
  | connTrack t => t.pack
  | socket m => m.pack
  | reversePath m => m.pack

/-- What makes an extension from a revision. -/
inductive Family
  | mark
  | classify
  | ipMark
  | connTrack
  /-- The alias of connection tracking that only turns it off. -/
  | noTrack
  | socket
  | reversePath
deriving DecidableEq, Repr

namespace Family

def create : Family → UInt8 → Extension
  | mark, revision => .mark (Mark.create revision)
  | classify, revision => .classify (Classify.create revision)
  | ipMark, revision => .ipMark (IpMark.create revision)
  | connTrack, revision => .connTrack (ConnTrack.create revision)
  | noTrack, revision => .connTrack (ConnTrack.createAlias revision)
  | socket, revision => .socket (SocketMatch.create revision)
  | reversePath, revision => .reversePath (ReversePath.create revision)

def unpack : Family → UInt8 → Field.Bytes → Except RuleError Extension
  | mark, revision, record => (Mark.unpack revision record).map .mark
  | classify, revision, record => (Classify.unpack revision record).map .classify
  | ipMark, revision, record => (IpMark.unpack revision record).map .ipMark
  | connTrack, revision, record => (ConnTrack.unpack revision record).map .connTrack
  | noTrack, revision, record => (ConnTrack.unpack revision record).map .connTrack
  | socket, revision, record => (SocketMatch.unpack revision record).map .socket
  | reversePath, revision, record => (ReversePath.unpack revision record).map .reversePath

end Family

end Extension

end FilterRecord
