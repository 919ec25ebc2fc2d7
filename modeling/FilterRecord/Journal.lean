/- Journal
   digest: The events that a program notes for developers while it reads, stores and shows rules. -/

import FilterRecord.Inspect
import FilterRecord.Log
import FilterRecord.Rule

set_option autoImplicit false
set_option relaxedAutoImplicit false

namespace FilterRecord.Journal

open Log (Event)
open Options (Occurrence Register)
open Text
open Text.Numeral (decimal)
open Text.Quoted (Repertoire quote)

/-! ## Files of the host -/

/-- A warning about a map of device groups that cannot be used. -/
def mapWarning (fault : DeviceGroups.LoadFault) : Event :=
  ⟨.warn, "xtmask::xt::lmap", "⚠️ Warning: " ++ fault.message⟩

def groupsLoaded (path : String) (map : DeviceGroups) : Event :=
  ⟨.debug, "xtmask::xt::lmap",
    "📖 Loaded " ++ decimal map.entries.length ++ " device groups from " ++ path⟩

def mapMissing (path : String) : Event :=
  ⟨.debug, "xtmask::xt::lmap", "🔍 No device group map at " ++ path⟩

def ofDeviceGroups (path : String) (contents : Names.Contents) : Event :=
  match DeviceGroups.ofOptionalFile path contents with
  | (some map, _) => groupsLoaded path map
  | (none, some fault) => mapWarning fault
  | (none, none) => mapMissing path

def accountsLoaded (accounts : Accounts) : Event :=
  ⟨.debug, "xtmask::xt::accounts", "📖 Loaded " ++ decimal accounts.users.length ++
    " users and " ++ decimal accounts.groups.length ++ " groups"⟩

def lineSkipped (repertoire : Repertoire) (line : List Char) : Event :=
  ⟨.trace, "xtmask::xt::accounts",
    "🔍 Skipping account line " ++ quote repertoire (String.ofList line)⟩

/-- A line with three fields that is no comment and has no account all the same. -/
def isSkipped (line : List Char) : Bool :=
  (trimStart line).head? != some '#' && 3 ≤ (split (· == ':') line).length &&
    (AccountTable.readLine line).isNone

def ofAccountText (repertoire : Repertoire) (text : String) : List Event :=
  ((lines text.toList).filter isSkipped).map (lineSkipped repertoire)

/-- The events of loading two account files; nothing is noted where one cannot be read. -/
def ofAccounts (repertoire : Repertoire) (passwd group : String × Names.Contents) : List Event :=
  match Accounts.textOfFile passwd.1 passwd.2, Accounts.textOfFile group.1 group.2 with
  | .ok users, .ok groups =>
    ofAccountText repertoire users ++ ofAccountText repertoire groups ++
      [accountsLoaded (.ofTexts users groups)]
  | _, _ => []

/-! ## Masked words -/

def encoded (op : Operation) : Event :=
  ⟨.trace, "xtmask::codec::operation", "🔧 Encoded " ++ op.inspect ++ ": value=" ++
    Numeral.hex op.encode.value.toNat ++ " mask=" ++ Numeral.hex op.encode.mask.toNat⟩

def decoded (w : MaskedWord) : Event :=
  ⟨.trace, "xtmask::codec::decode", "🔍 Decoded value=" ++ Numeral.hex w.value.toNat ++
    " mask=" ++ Numeral.hex w.mask.toNat ++ " as " ++ w.form.inspect⟩

def rejected (t : RevisionTable) (option : String) (revision : UInt8) (kind : Operation.Kind) :
    Event :=
  ⟨.debug, "xtmask::codec::capability", "❌ " ++ t.extension ++ "." ++ decimal revision.toNat ++
    " rejects " ++ kind.inspect ++ " from --" ++ option ++ " (capabilities " ++
    (t.capabilities revision).inspect ++ ")"⟩

/-! ## Options -/

def converted (repertoire : Repertoire) (o : Occurrence) (argument : String) : Event :=
  ⟨.trace, "xtmask::xt::options", "🔧 " ++ o.extension ++ ": --" ++ o.entry.name ++ " " ++
    quote repertoire argument ++ " -> " ++ o.operand.inspect repertoire⟩

def taken (o : Occurrence) : Event :=
  ⟨.debug, "xtmask::xt::parser", "📋 " ++ o.extension ++ "." ++ decimal o.revision.toNat ++
    ": " ++ (if o.inverted then "! " else "") ++ "--" ++ o.entry.name ++ " " ++ o.rawArgument⟩

/-- The events of reading an option, before the extension takes it. -/
def ofOccurrence (repertoire : Repertoire) (o : Occurrence) : List Event :=
  (o.argument.map (converted repertoire o)).toList ++ [taken o]

/-- The events of storing an operation: the revision rejects it, or a masked word encodes it. -/
def ofOperation (t : RevisionTable) (revision : UInt8) (hasWord : Bool) (o : Occurrence)
    (op : Operation) : List Event :=
  match t.check o.entry.name revision op.kind with
  | .error _ => [rejected t o.entry.name revision op.kind]
  | .ok () => if hasWord then [encoded op] else []

def ofApply : Extension → Occurrence → List Event
  | .mark m, o =>
    match Mark.operation? o.entry.id o.operand with
    | some op => ofOperation Mark.revisions m.revision (m.revision == 2) o op
    | none => []
  | .classify c, o =>
    match c.operation o with
    | .ok op => ofOperation Classify.revisions c.revision (c.revision == 1) o op
    | .error _ => []
  | .ipMark m, o =>
    match IpMark.operation? o.entry.id o.operand with
    | some op => ofOperation IpMark.revisions m.revision (m.revision == 2) o op
    | none => []
  | .connTrack _, _ | .socket _, _ | .reversePath _, _ => []

/-- The events of taking occurrences in order, up to the first that the extension refuses. -/
def ofOccurrences (repertoire : Repertoire) (host : Context) : Extension → List Occurrence →
    List Event
  | _, [] => []
  | ext, o :: rest =>
    ofOccurrence repertoire o ++ ofApply ext o ++
      match ext.apply host o with
      | (next, .ok ()) => ofOccurrences repertoire host next rest
      | (_, .error _) => []

def ofTokens (repertoire : Repertoire) (host : Context) (ext : Extension) (tokens : List String) :
    List Event :=
  ofOccurrences repertoire host ext (ext.grammar.read tokens).occurrences

/-! ## Records -/

def home : Extension → String
  | .mark _ => "xtmask::xt::mark"
  | .classify _ => "xtmask::xt::classify"
  | .ipMark _ => "xtmask::xt::ipmark"
  | .connTrack _ => "xtmask::xt::ct"
  | .socket _ => "xtmask::xt::socket"
  | .reversePath _ => "xtmask::xt::rpfilter"

def unpacked (repertoire : Repertoire) (revision : UInt8) (ext : Extension) : Event :=
  ⟨.trace, home ext, "📦 Unpacked " ++ ext.name ++ "." ++ decimal revision.toNat ++ ": " ++
    ext.inspect repertoire⟩

/-- The event of packing a record, which one extension alone notes. -/
def ofPack : Extension → List Event
  | .mark m => [⟨.trace, home (.mark m), "📦 Packed " ++ Mark.name ++ "." ++
      decimal m.revision.toNat ++ ": " ++ HexBytes.encode m.pack⟩]
  | _ => []

/-- The event of showing a record once, listed or saved, where a masked word is decoded for it. -/
def ofShow : Extension → List Event
  | .mark (.masked w) | .ipMark (.masked w _ _) => [decoded w]
  | .classify (.masked w) => if w.mask = MaskedWord.fullMask then [] else [decoded w]
  | _ => []

def ofStatement : Extension → List Event
  | .mark (.masked w) => if w.mask = MaskedWord.fullMask then [] else [decoded w]
  | _ => []

/-! ## Rules -/

def loaded (r : Registration) : Event :=
  ⟨.debug, "xtmask::xt", "🔌 Loaded " ++ r.name ++ " revision " ++ decimal r.revision.toNat⟩

def ofLookup (name : String) (revision : Option UInt8) : List Event :=
  match Registry.lookup name revision with
  | .ok r => [loaded r]
  | .error _ => []

def optionsSeen (r : Registration) (seen : Register) : Event :=
  ⟨.debug, "xtmask::api", "📋 " ++ r.name ++ "." ++ decimal r.revision.toNat ++
    " options seen: " ++ Numeral.hex seen.bits.toNat⟩

def packNote (r : Registration) (ext : Extension) : Event :=
  ⟨.info, "xtmask::api", "📦 Packed " ++ r.name ++ "." ++ decimal r.revision.toNat ++ " into " ++
    decimal ext.pack.length ++ " bytes"⟩

/-- The events of the views of an accepted rule: it is listed, saved, saved again in its own text,
and stated. -/
def ofRule (r : Registration) (seen : Register) (ext : Extension) : List Event :=
  optionsSeen r seen :: ofPack ext ++ packNote r ext :: ofShow ext ++ ofShow ext ++ ofShow ext ++
    ofStatement ext

def ofParse (repertoire : Repertoire) (name : String) (revision : Option UInt8)
    (tokens : List String) (host : Context) : List Event :=
  ofLookup name revision ++
  match Registry.lookup name revision with
  | .error _ => []
  | .ok r =>
    ofTokens repertoire host r.create tokens ++
    match r.create.applyTokens host tokens with
    | (ext, .ok seen) => ofRule r seen ext
    | (_, .error _) => []

/-- The events of reading a record, and those of what is made of it. -/
def ofRecord (repertoire : Repertoire) (views : Extension → List Event) (name : String)
    (revision : UInt8) (record : Field.Bytes) : List Event :=
  ofLookup name (some revision) ++
  match Registry.lookup name (some revision) with
  | .error _ => []
  | .ok r =>
    match r.unpack record with
    | .ok ext => unpacked repertoire revision ext :: views ext
    | .error _ => []

/-- The events of describing a record: its bytes, a listing, the saved text and the statement. -/
def ofView (ext : Extension) : List Event :=
  ofPack ext ++ ofShow ext ++ ofShow ext ++ ofStatement ext

end FilterRecord.Journal
