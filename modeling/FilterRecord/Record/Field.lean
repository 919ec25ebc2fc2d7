/- Record/Field
   digest: Little-endian words and zero-ended names at fixed offsets of a record. -/

import FilterRecord.Error
import FilterRecord.Mask.Word

set_option autoImplicit false
set_option relaxedAutoImplicit false

namespace FilterRecord.Field

open Text

abbrev Bytes := List UInt8

/-- A size rounded up to a multiple of eight, as the kernel aligns its records. -/
def align (size : Nat) : Nat :=
  (size + 7) / 8 * 8

/-- The number that bytes write, the lowest byte first. -/
def number : Bytes → Nat
  | [] => 0
  | b :: bs => b.toNat + 256 * number bs

/-- The lowest bytes of a number, the lowest first. -/
def bytesOf : Nat → Nat → Bytes
  | 0, _ => []
  | width + 1, n => UInt8.ofNat n :: bytesOf width (n / 256)

def word16 (n : UInt16) : Bytes := bytesOf 2 n.toNat

def word32 (n : UInt32) : Bytes := bytesOf 4 n.toNat

def word64 (n : UInt64) : Bytes := bytesOf 8 n.toNat

def zeros (count : Nat) : Bytes := List.replicate count 0

/-- The bytes of a range; none when the range leaves the record. -/
def range? (offset width : Nat) (record : Bytes) : Option Bytes :=
  if offset + width ≤ record.length then some ((record.drop offset).take width) else none

def getNumber (offset width : Nat) (record : Bytes) : Except RuleError Nat :=
  match range? offset width record with
  | some bytes => .ok (number bytes)
  | none => .error (.shortField width offset record.length)

def get8 (offset : Nat) (record : Bytes) : Except RuleError UInt8 :=
  (getNumber offset 1 record).map UInt8.ofNat

def get16 (offset : Nat) (record : Bytes) : Except RuleError UInt16 :=
  (getNumber offset 2 record).map UInt16.ofNat

def get32 (offset : Nat) (record : Bytes) : Except RuleError UInt32 :=
  (getNumber offset 4 record).map UInt32.ofNat

def get64 (offset : Nat) (record : Bytes) : Except RuleError UInt64 :=
  (getNumber offset 8 record).map UInt64.ofNat

/-- A record with new bytes from an offset on. -/
def put (offset : Nat) (bytes record : Bytes) : Bytes :=
  record.take offset ++ bytes ++ record.drop (offset + bytes.length)

def put16 (offset : Nat) (n : UInt16) (record : Bytes) : Bytes :=
  put offset (word16 n) record

def put32 (offset : Nat) (n : UInt32) (record : Bytes) : Bytes :=
  put offset (word32 n) record

def put64 (offset : Nat) (n : UInt64) (record : Bytes) : Bytes :=
  put offset (word64 n) record

/-- The slot of a name: as many of its bytes as leave room for a zero, then zeros. -/
def nameSlot (width : Nat) (name : String) : Bytes :=
  let kept := (Utf8.encode name.toList).take (width - 1)
  kept ++ zeros (width - kept.length)

/-- The name in a slot: the text of the bytes before the first zero. -/
def nameOf (slot : Bytes) : String :=
  String.ofList (Utf8.decodeLossy (slot.takeWhile (· != 0)))

def putName (offset width : Nat) (name : String) (record : Bytes) : Bytes :=
  put offset (nameSlot width name) record

def getName (offset width : Nat) (record : Bytes) : Except RuleError String :=
  match range? offset width record with
  | some slot => .ok (nameOf slot)
  | none => .error (.shortName width offset)

/-- A record has the size the kernel uses, or that of the part which userspace owns. -/
def checkSize (extension : String) (revision : UInt8) (size userspaceSize : Nat) (record : Bytes) :
    Except RuleError Unit :=
  if record.length = size || record.length = userspaceSize then .ok ()
  else .error (.recordSize extension revision size record.length)

end FilterRecord.Field

namespace FilterRecord.MaskedWord

/-- The bytes of a masked word: the value, then the mask. -/
def pack (w : MaskedWord) : Field.Bytes :=
  Field.word32 w.value ++ Field.word32 w.mask

/-- The masked word in the first eight bytes of a record. -/
def unpack? (record : Field.Bytes) : Option MaskedWord :=
  match Field.get32 0 record, Field.get32 4 record with
  | .ok value, .ok mask => some ⟨value, mask⟩
  | _, _ => none

end FilterRecord.MaskedWord
