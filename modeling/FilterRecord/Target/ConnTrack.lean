/- Target/ConnTrack
   digest: The CT target, which prepares the tracking of a connection, and its NOTRACK alias. -/

import FilterRecord.Options.Occurrence
import FilterRecord.Options.Shown
import FilterRecord.Record.Field
import FilterRecord.Target.Events

set_option autoImplicit false
set_option relaxedAutoImplicit false

namespace FilterRecord

open Text
open Options (Entry Occurrence Operand shown)

/-- A CT record, with the revision of its layout. -/
structure ConnTrack where
  revision : UInt8
  flags : UInt16
  zone : UInt16
  events : UInt32
  expectations : UInt32
  helper : String
  /-- The timeout policy; the layout of revision 0 has no room for it. -/
  timeout : String
  /-- The rule named the target by its alias. -/
  viaAlias : Bool
deriving DecidableEq, Repr

namespace ConnTrack

def name : String := "CT"

/-- The name under which the target only turns tracking off. -/
def aliasName : String := "NOTRACK"

namespace Flag

def untracked : UInt16 := 1

def byAlias : UInt16 := 2

/-- The zone holds for the direction of the first packet only. -/
def initial : UInt16 := 4

/-- The zone holds for the reply direction only. -/
def reply : UInt16 := 8

/-- The zone is taken from the packet's mark. -/
def zoneMark : UInt16 := 16

end Flag

namespace Id

@[match_pattern] abbrev notrack : Nat := 0
@[match_pattern] abbrev zone : Nat := 1
@[match_pattern] abbrev events : Nat := 2
@[match_pattern] abbrev expectations : Nat := 3
@[match_pattern] abbrev helper : Nat := 4
@[match_pattern] abbrev timeout : Nat := 5
@[match_pattern] abbrev zoneInitial : Nat := 6
@[match_pattern] abbrev zoneReply : Nat := 7

end Id

/-- The bit of the option that turns tracking off; every other option excludes it. -/
def untrackedBits : UInt32 := Options.bits [Id.notrack]

/-- The bits of the options that state a zone; each excludes the others. -/
def zoneBits : UInt32 := Options.bits [Id.zone, Id.zoneInitial, Id.zoneReply]

/-- The bits that the option which turns tracking off excludes: all other options. -/
def trackingBits : UInt32 :=
  zoneBits ||| Options.bits [Id.events, Id.expectations, Id.helper, Id.timeout]

def fullTable : List Entry :=
  [⟨"notrack", Id.notrack, .flag, trackingBits, false⟩,
    ⟨"zone", Id.zone, .text, untrackedBits ||| zoneBits, false⟩,
    ⟨"ctevents", Id.events, .text, untrackedBits, false⟩,
    ⟨"expevents", Id.expectations, .text, untrackedBits, false⟩,
    ⟨"helper", Id.helper, .text, untrackedBits, false⟩,
    ⟨"timeout", Id.timeout, .text, untrackedBits, false⟩,
    ⟨"zone-orig", Id.zoneInitial, .text, untrackedBits ||| zoneBits, false⟩,
    ⟨"zone-reply", Id.zoneReply, .text, untrackedBits ||| zoneBits, false⟩]

/-- The option table; the alias takes no options. -/
def table (t : ConnTrack) : List Entry :=
  if t.viaAlias then [] else fullTable

def create (revision : UInt8) : ConnTrack :=
  ⟨revision, 0, 0, 0, 0, "", "", false⟩

/-- The record of the alias, which revisions from 2 on tell apart from the option. -/
def createAlias (revision : UInt8) : ConnTrack :=
  ⟨revision, if revision < 2 then Flag.untracked else Flag.untracked ||| Flag.byAlias,
    0, 0, 0, "", "", true⟩

def has (t : ConnTrack) (flag : UInt16) : Bool := t.flags &&& flag != 0

def shownName (t : ConnTrack) : String :=
  if t.viaAlias || t.has Flag.byAlias then aliasName else name

def helperWidth : Nat := 16

def timeoutWidth : Nat := 32

/-- The size of the part of a record that userspace owns: up to the kernel's pointer. -/
def userspaceSize (revision : UInt8) : Nat :=
  Field.align (if revision = 0 then 12 + helperWidth else 12 + helperWidth + timeoutWidth)

def size (revision : UInt8) : Nat := userspaceSize revision + 8

/-- The record after a zone option. The direction is set and the former zone dropped before the
argument is read. -/
def applyZone (direction : UInt16) (t : ConnTrack) (o : Occurrence) :
    ConnTrack × Except RuleError Unit :=
  let cleared := { t with flags := t.flags ||| direction, zone := 0 }
  if sameLetters o.rawArgument "mark" then
    ({ cleared with flags := cleared.flags ||| Flag.zoneMark }, .ok ())
  else match Numeral.bounded? 0 65535 o.rawArgument.toList with
    | some zone => ({ cleared with zone := UInt16.ofNat zone }, .ok ())
    | none =>
      (cleared, .error (o.badValue ("Cannot parse " ++ o.rawArgument ++ " as a zone ID")))

def readEvents (table : EventTable) (o : Occurrence) (list : String) : Except RuleError UInt32 :=
  match table.read list with
  | .ok bits => .ok bits
  | .error event => .error (o.badValue (EventTable.unknown event))

/-- A name that leaves room for a zero in its slot. -/
def readName (what : String) (width : Nat) (o : Occurrence) (text : String) :
    Except RuleError String :=
  if (Utf8.encode text.toList).length < width then .ok text
  else .error (o.badValue (what ++ " name \"" ++ text ++ "\" is longer than " ++
    Numeral.decimal (width - 1) ++ " characters"))

def needsRevisionOne (id : Nat) : Bool :=
  id == Id.zoneInitial || id == Id.zoneReply || id == Id.timeout

def apply (t : ConnTrack) (o : Occurrence) : ConnTrack × Except RuleError Unit :=
  if needsRevisionOne o.entry.id && t.revision < 1 then (t, .error o.unsupported)
  else match o.entry.id, o.operand with
    | Id.notrack, _ => ({ t with flags := t.flags ||| Flag.untracked }, .ok ())
    | Id.zone, _ => applyZone 0 t o
    | Id.zoneInitial, _ => applyZone Flag.initial t o
    | Id.zoneReply, _ => applyZone Flag.reply t o
    | Id.events, .text list =>
      Options.commit t ((readEvents .connection o list).map ({ t with events := · }))
    | Id.expectations, .text list =>
      Options.commit t ((readEvents .expectation o list).map ({ t with expectations := · }))
    | Id.helper, .text text =>
      Options.commit t ((readName "helper" helperWidth o text).map ({ t with helper := · }))
    | Id.timeout, .text text =>
      Options.commit t
        ((readName "timeout policy" timeoutWidth o text).map ({ t with timeout := · }))
    | _, _ => (t, .error o.unsupported)

/-- The ending of a zone option's name: a direction shows when it is the only one. -/
def directionSuffix (t : ConnTrack) : String :=
  if t.has Flag.initial && !t.has Flag.reply then "-orig"
  else if t.has Flag.reply && !t.has Flag.initial then "-reply"
  else ""

def ruleWords (dash : String) (t : ConnTrack) : List String :=
  shown (t.has Flag.untracked) false [dash ++ "notrack"] ++
  shown (t.helper != "") false [dash ++ "helper", t.helper] ++
  shown (t.events != 0) false [dash ++ "ctevents", EventTable.connection.display t.events] ++
  shown (t.expectations != 0) false
    [dash ++ "expevents", EventTable.expectation.display t.expectations] ++
  shown (t.has Flag.zoneMark || t.zone != 0) false
    [dash ++ "zone" ++ t.directionSuffix,
      if t.has Flag.zoneMark then "mark" else Numeral.decimal t.zone.toNat] ++
  shown (1 ≤ t.revision && t.timeout != "") false [dash ++ "timeout", t.timeout]

def listedWords (t : ConnTrack) : List String :=
  if t.has Flag.byAlias then [aliasName] else name :: t.ruleWords ""

/-- The words that give the record again; the alias needs none. -/
def savedWords (t : ConnTrack) : List String :=
  if t.has Flag.byAlias then [] else t.ruleWords "--"

/-- The bytes of a record. The kernel's pointer at the end is zero. -/
def pack (t : ConnTrack) : Field.Bytes :=
  Field.word16 t.flags ++ Field.word16 t.zone ++ Field.word32 t.events ++
  Field.word32 t.expectations ++ Field.nameSlot helperWidth t.helper ++
  (if 1 ≤ t.revision then Field.nameSlot timeoutWidth t.timeout else []) ++
  Field.zeros (size t.revision -
    (if 1 ≤ t.revision then 12 + helperWidth + timeoutWidth else 12 + helperWidth))

/-- The record in bytes of the right size, with or without the kernel's pointer. -/
def unpack (revision : UInt8) (record : Field.Bytes) : Except RuleError ConnTrack := do
  Field.checkSize name revision (size revision) (userspaceSize revision) record
  let flags ← Field.get16 0 record
  let zone ← Field.get16 2 record
  let events ← Field.get32 4 record
  let expectations ← Field.get32 8 record
  let helper ← Field.getName 12 helperWidth record
  let timeout ←
    if 1 ≤ revision then Field.getName (12 + helperWidth) timeoutWidth record else .ok ""
  return ⟨revision, flags, zone, events, expectations, helper, timeout, false⟩

def help (t : ConnTrack) : String :=
  if t.viaAlias then ofLines ["NOTRACK target takes no options"]
  else ofLines
    (["CT target options:",
      " --notrack                     Don't track connection",
      " --zone ID                     Assign/Lookup connection in zone ID",
      " --ctevents event[,event...]   Generate specified conntrack events for connection",
      " --expevents event[,event...]  Generate specified expectation events for connection",
      " --helper name                 Use conntrack helper 'name' for connection",
      " --zone \x7bID|mark\x7d              Assign/Lookup connection in zone ID/packet nfmark",
      " --zone-orig \x7bID|mark\x7d         Same as 'zone' option, but only applies to " ++
        "ORIGINAL direction",
      " --zone-reply \x7bID|mark\x7d        Same as 'zone' option, but only applies to " ++
        "REPLY direction"] ++
    if 1 ≤ t.revision then
      [" --timeout name                Use timeout policy 'name' for connection"]
    else [])

end ConnTrack

end FilterRecord
