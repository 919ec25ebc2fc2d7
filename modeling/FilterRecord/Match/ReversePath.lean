/- Match/ReversePath
   digest: The rpfilter match, which tests the route back to a packet's source, in its revisions. -/

import FilterRecord.Names.DeviceGroups
import FilterRecord.Options.Occurrence
import FilterRecord.Options.Shown
import FilterRecord.Record.Field

set_option autoImplicit false
set_option relaxedAutoImplicit false

namespace FilterRecord

open Text
open Options (Entry Occurrence Operand shown)

namespace DeviceGroups

/-- A group by number, with an optional mask after a stroke, or by name with a full mask. A stroke
after a number of 32 bits commits the text to a mask. -/
def readMasked? (groups : DeviceGroups) (s : String) : Option MaskedWord :=
  let byName := (groups.idOf? s).map fun id => ⟨id, MaskedWord.fullMask⟩
  match Numeral.read? s.toList with
  | none => byName
  | some (value, rest) =>
    if 0x100000000 ≤ value then byName
    else match rest with
      | [] => some ⟨UInt32.ofNat value, MaskedWord.fullMask⟩
      | '/' :: mask => (Numeral.word32? mask).map fun m => ⟨UInt32.ofNat value, m⟩
      | _ => byName

/-- A group as text: its name where the mask is full and there is one. -/
def display (groups : DeviceGroups) (word : MaskedWord) : String :=
  if word.mask = MaskedWord.fullMask then
    (groups.nameOf? word.value).getD (Numeral.hex word.value.toNat)
  else Numeral.hex word.value.toNat ++ "/" ++ Numeral.hex word.mask.toNat

end DeviceGroups

/-- An rpfilter record, with the revision of its layout. -/
structure ReversePath where
  revision : UInt8
  flags : UInt8
  /-- The length of the route; the layout of revision 0 has no room for it. -/
  prefixLength : UInt8
  /-- The group of the route's device; the layout of revision 0 has no room for it. -/
  group : MaskedWord
deriving DecidableEq, Repr

namespace ReversePath

def name : String := "rpfilter"

namespace Flag

/-- The route may use any device. -/
def loose : UInt8 := 1

/-- The mark of the packet takes part in the look-up. -/
def validMark : UInt8 := 2

/-- A packet from a local address passes. -/
def acceptLocal : UInt8 := 4

def invert : UInt8 := 8

def prefixLength : UInt8 := 16

def prefixLengthInverted : UInt8 := 32

def group : UInt8 := 64

def groupInverted : UInt8 := 128

end Flag

namespace Id

@[match_pattern] abbrev loose : Nat := 0
@[match_pattern] abbrev validMark : Nat := 1
@[match_pattern] abbrev acceptLocal : Nat := 2
@[match_pattern] abbrev invert : Nat := 3
@[match_pattern] abbrev prefixLength : Nat := 4
@[match_pattern] abbrev group : Nat := 5

end Id

def table : List Entry :=
  [⟨"loose", Id.loose, .flag, 0, false⟩,
    ⟨"validmark", Id.validMark, .flag, 0, false⟩,
    ⟨"accept-local", Id.acceptLocal, .flag, 0, false⟩,
    ⟨"invert", Id.invert, .flag, 0, false⟩,
    ⟨"prefixlen", Id.prefixLength, .prefixLength, 0, true⟩,
    ⟨"devgroup", Id.group, .text, 0, true⟩]

def create (revision : UInt8) : ReversePath :=
  ⟨revision, 0, 0, .zero⟩

def size (revision : UInt8) : Nat :=
  if revision = 0 then Field.align 1 else Field.align 12

def has (m : ReversePath) (flag : UInt8) : Bool := m.flags &&& flag != 0

def withFlags (m : ReversePath) (flags : UInt8) : ReversePath :=
  { m with flags := m.flags ||| flags }

def needsRevisionOne (id : Nat) : Bool :=
  id == Id.prefixLength || id == Id.group

def apply (groups : DeviceGroups) (m : ReversePath) (o : Occurrence) :
    Except RuleError ReversePath :=
  if needsRevisionOne o.entry.id && m.revision < 1 then .error o.unsupported
  else match o.entry.id, o.operand with
    | Id.loose, _ => .ok (m.withFlags Flag.loose)
    | Id.validMark, _ => .ok (m.withFlags Flag.validMark)
    | Id.acceptLocal, _ => .ok (m.withFlags Flag.acceptLocal)
    | Id.invert, _ => .ok (m.withFlags Flag.invert)
    | Id.prefixLength, .prefixLength n =>
      .ok (withFlags { m with prefixLength := n }
        (if o.inverted then Flag.prefixLength ||| Flag.prefixLengthInverted
          else Flag.prefixLength))
    | Id.group, .text s =>
      match groups.readMasked? s with
      | some word =>
        .ok (withFlags { m with group := word }
          (if o.inverted then Flag.group ||| Flag.groupInverted else Flag.group))
      | none => .error (o.badValue ("Bad value for \"--devgroup\" option: \"" ++ s ++ "\""))
    | _, _ => .error o.unsupported

/-- The words of the record in a rule; `dash` stands before the options' names. -/
def ruleWords (groups : DeviceGroups) (dash : String) (m : ReversePath) : List String :=
  shown (m.has Flag.loose) false [dash ++ "loose"] ++
  shown (m.has Flag.validMark) false [dash ++ "validmark"] ++
  shown (m.has Flag.acceptLocal) false [dash ++ "accept-local"] ++
  shown (m.has Flag.invert) false [dash ++ "invert"] ++
  shown (1 ≤ m.revision && m.has Flag.prefixLength) (m.has Flag.prefixLengthInverted)
    [dash ++ "prefixlen", Numeral.decimal m.prefixLength.toNat] ++
  shown (1 ≤ m.revision && m.has Flag.group) (m.has Flag.groupInverted)
    [dash ++ "devgroup", groups.display m.group]

def listedWords (groups : DeviceGroups) (numeric : Bool) (m : ReversePath) : List String :=
  name :: m.ruleWords (if numeric then .empty else groups) ""

def savedWords (groups : DeviceGroups) (m : ReversePath) : List String :=
  m.ruleWords groups "--"

/-- The nftables expression of a record. There is none that lets local addresses pass, unless the
result is inverted. -/
def statement? (m : ReversePath) : Option String :=
  if m.has Flag.acceptLocal && !m.has Flag.invert then none
  else some (
    (if m.has Flag.acceptLocal then "fib saddr type != local " else "") ++ "fib saddr " ++
    (if m.has Flag.validMark then ". mark " else "") ++
    (if m.has Flag.loose then "" else ". iif ") ++
    if m.has Flag.invert then "oif 0" else "oif != 0")

def pack (m : ReversePath) : Field.Bytes :=
  if m.revision = 0 then m.flags :: Field.zeros 7
  else [m.flags, m.prefixLength] ++ Field.zeros 2 ++ m.group.pack ++ Field.zeros 4

def unpack (revision : UInt8) (record : Field.Bytes) : Except RuleError ReversePath := do
  Field.checkSize name revision (size revision) (size revision) record
  let flags ← Field.get8 0 record
  if revision = 0 then return { create revision with flags := flags }
  let length ← Field.get8 1 record
  let value ← Field.get32 4 record
  let mask ← Field.get32 8 record
  return ⟨revision, flags, length, ⟨value, mask⟩⟩

def help : String :=
  ofLines
    ["rpfilter match options:",
      "    --loose                  permit reverse path via any interface",
      "    --validmark              use skb nfmark when performing route lookup",
      "    --accept-local           do not reject packets with a local source address",
      "    --invert                 match packets that failed the reverse path test",
      "[!] --prefixlen <length>     match if reverse path route prefix length is",
      "                             shorter than or equal to length",
      "[!] --devgroup value[/mask]  match if reverse path route outgoing interface is",
      "                             in device group"]

end ReversePath

end FilterRecord
