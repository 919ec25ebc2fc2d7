/- Proofs/Record/Locality
   digest: A field is read back as it was written, and nothing else in the record changes. -/

import FilterRecord.Proofs.Record.NameSlot
import FilterRecord.Proofs.Record.Writes

set_option autoImplicit false
set_option relaxedAutoImplicit false

namespace FilterRecord.Field

open Text

variable {record first second : Bytes} {offset start : Nat}

/-! ## Slots that share no byte -/

namespace Slot

variable {s t : Slot}

/-- No byte is in both slots. An empty slot is separate from every slot, also from one around it. -/
def Separate (s t : Slot) : Prop := ∀ i, s.Covers i → ¬ t.Covers i

theorem separate_iff : s.Separate t ↔ s.width = 0 ∨ t.width = 0 ∨ s.Apart t := by
  simp only [Separate, Covers, Apart]
  constructor
  · intro separate
    -- If any byte is in both slots, the one at which the later of them starts is.
    have shared := separate (max s.offset t.offset)
    omega
  · intro apart i inside meets
    omega

instance (s t : Slot) : Decidable (s.Separate t) :=
  decidable_of_iff' _ separate_iff

theorem Separate.symm (separate : s.Separate t) : t.Separate s :=
  fun i inside meets => separate i meets inside

theorem of_congr (same : ∀ i, s.Covers i → first[i]? = second[i]?) : s.of first = s.of second := by
  apply List.ext_getElem?
  intro i
  rw [getElem?_of, getElem?_of]
  split
  · rename_i inside
    exact same _ ⟨by omega, by omega⟩
  · rfl

end Slot

/-! ## Bytes that are written -/

section Bytes

variable {bytes others : Bytes}

theorem getElem?_put_outside (fits : offset + bytes.length ≤ record.length) {i : Nat}
    (outside : ¬ (Slot.mk offset bytes.length).Covers i) :
    (put offset bytes record)[i]? = record[i]? :=
  (getElem?_put fits).trans (if_neg outside)

theorem holds_put (fits : offset + bytes.length ≤ record.length) :
    Holds offset bytes (put offset bytes record) := by
  refine range?_eq_some_iff.mpr ⟨by rwa [length_put fits], List.ext_getElem? fun i => ?_⟩
  rw [Slot.getElem?_of, getElem?_put fits]
  dsimp only
  by_cases inside : i < bytes.length
  · rw [if_pos inside, if_pos (by omega), Nat.add_sub_cancel_left]
  · rw [if_neg inside, List.getElem?_eq_none (by omega)]

theorem put_comm (fits : offset + bytes.length ≤ record.length)
    (others_fit : start + others.length ≤ record.length)
    (separate : (Slot.mk offset bytes.length).Separate ⟨start, others.length⟩) :
    put start others (put offset bytes record) = put offset bytes (put start others record) := by
  apply List.ext_getElem?
  intro i
  rw [getElem?_put (by rwa [length_put fits]), getElem?_put fits,
    getElem?_put (by rwa [length_put others_fit]), getElem?_put others_fit]
  by_cases inside : offset ≤ i ∧ i < offset + bytes.length
  · have outside : ¬ (start ≤ i ∧ i < start + others.length) := separate i inside
    rw [if_neg outside, if_pos inside, if_pos inside]
  · rw [if_neg inside, if_neg inside]

end Bytes

/-! ## Fields that are read -/

inductive Kind
  | byte
  | word16
  | word32
  | word64
  | name (width : Nat)
deriving DecidableEq, Repr

namespace Kind

def width : Kind → Nat
  | byte => 1
  | word16 => 2
  | word32 => 4
  | word64 => 8
  | name width => width

def Value : Kind → Type
  | byte => UInt8
  | word16 => UInt16
  | word32 => UInt32
  | word64 => UInt64
  | name _ => String

def get (offset : Nat) (record : Bytes) : (kind : Kind) → Except RuleError kind.Value
  | byte => get8 offset record
  | word16 => get16 offset record
  | word32 => get32 offset record
  | word64 => get64 offset record
  | name width => getName offset width record

def refusal (offset : Nat) (record : Bytes) : Kind → RuleError
  | name width => .shortName width offset
  | kind => .shortField kind.width offset record.length

end Kind

/-! Both ways to read a field look at its slot only, and refuse a record that ends before it. -/

private theorem getNumber_eq (offset width : Nat) (record : Bytes) : getNumber offset width record =
    if offset + width ≤ record.length then .ok (number ((Slot.mk offset width).of record))
    else .error (.shortField width offset record.length) := by
  unfold getNumber range?
  by_cases fits : offset + width ≤ record.length <;> simp [fits, Slot.of]

private theorem getName_eq (offset width : Nat) (record : Bytes) : getName offset width record =
    if offset + width ≤ record.length then .ok (nameOf ((Slot.mk offset width).of record))
    else .error (.shortName width offset) := by
  unfold getName range?
  by_cases fits : offset + width ≤ record.length <;> simp [fits, Slot.of]

private theorem short_iff {α : Type} {width : Nat} {a : α} {refusal e : RuleError} :
    (if offset + width ≤ record.length then Except.ok a else .error refusal) = .error e ↔
      record.length < offset + width ∧ e = refusal := by
  by_cases fits : offset + width ≤ record.length
  · simp [fits, Nat.not_lt.mpr fits]
  · simp [fits, Nat.lt_of_not_le fits, eq_comm]

namespace Kind

variable {kind : Kind}

theorem get_congr (length : first.length = second.length)
    (same : (Slot.mk offset kind.width).of first = (Slot.mk offset kind.width).of second) :
    kind.get offset first = kind.get offset second := by
  have number : getNumber offset kind.width first = getNumber offset kind.width second := by
    rw [getNumber_eq, getNumber_eq, length, same]
  cases kind with
  | byte => exact congrArg (Except.map UInt8.ofNat) number
  | word16 => exact congrArg (Except.map UInt16.ofNat) number
  | word32 => exact congrArg (Except.map UInt32.ofNat) number
  | word64 => exact congrArg (Except.map UInt64.ofNat) number
  | name width =>
    have range : (Slot.mk offset width).of first = (Slot.mk offset width).of second := same
    have text : getName offset width first = getName offset width second := by
      rw [getName_eq, getName_eq, length, range]
    exact text

theorem get_eq_error_iff {e : RuleError} : kind.get offset record = .error e ↔
    record.length < offset + kind.width ∧ e = kind.refusal offset record := by
  cases kind with
  | byte | word16 | word32 | word64 =>
    refine map_eq_error_iff.trans ?_
    rw [getNumber_eq]
    exact short_iff
  | name width =>
    simp only [get, getName_eq]
    exact short_iff

end Kind

/-! ## Fields that are written -/

inductive Content
  | word16 (n : UInt16)
  | word32 (n : UInt32)
  | word64 (n : UInt64)
  | name (width : Nat) (text : String)
deriving DecidableEq, Repr

namespace Content

def width : Content → Nat
  | word16 _ => 2
  | word32 _ => 4
  | word64 _ => 8
  | name width _ => width

def put (offset : Nat) (record : Bytes) : Content → Bytes
  | word16 n => put16 offset n record
  | word32 n => put32 offset n record
  | word64 n => put64 offset n record
  | name width text => putName offset width text record

def bytes : Content → Bytes
  | word16 n => Field.word16 n
  | word32 n => Field.word32 n
  | word64 n => Field.word64 n
  | name width text => nameSlot width text

theorem length_bytes (content : Content) : content.bytes.length = content.width := by
  cases content with
  | word16 n => exact length_word16 n
  | word32 n => exact length_word32 n
  | word64 n => exact length_word64 n
  | name width text => exact length_nameSlot width text

theorem put_eq (content : Content) (offset : Nat) (record : Bytes) :
    content.put offset record = Field.put offset content.bytes record := by
  cases content <;> rfl

variable {content other : Content}

theorem length_put (fits : offset + content.width ≤ record.length) :
    (content.put offset record).length = record.length := by
  rw [← length_bytes] at fits
  rw [put_eq, Field.length_put fits]

theorem getElem?_put_outside (fits : offset + content.width ≤ record.length) {i : Nat}
    (outside : ¬ (Slot.mk offset content.width).Covers i) :
    (content.put offset record)[i]? = record[i]? := by
  rw [← length_bytes] at fits outside
  rw [put_eq, Field.getElem?_put_outside fits outside]

theorem get_put (fits : offset + content.width ≤ record.length) {kind : Kind}
    (separate : (Slot.mk offset content.width).Separate ⟨start, kind.width⟩) :
    kind.get start (content.put offset record) = kind.get start record := by
  refine Kind.get_congr (length_put fits) (Slot.of_congr fun i inside => ?_)
  exact getElem?_put_outside fits (separate.symm i inside)

theorem put_comm (fits : offset + content.width ≤ record.length)
    (other_fits : start + other.width ≤ record.length)
    (separate : (Slot.mk offset content.width).Separate ⟨start, other.width⟩) :
    other.put start (content.put offset record) = content.put offset (other.put start record) := by
  rw [← length_bytes] at fits other_fits
  rw [← length_bytes, ← length_bytes] at separate
  simp only [put_eq]
  exact Field.put_comm fits other_fits separate

end Content

/-! ## What is read back -/

/-- The text that is read of a name in its slot: that of as many of its bytes as leave room for a
zero, up to the first zero among them. -/
def readBack (width : Nat) (name : String) : String :=
  String.ofList (Utf8.decodeLossy (beforeZero ((Utf8.encode name.toList).take (width - 1))))

variable {width : Nat} {name : String}

theorem readBack_eq (width : Nat) (name : String) :
    readBack width name = nameOf (nameSlot width name) := by
  rw [readBack, nameOf, ← beforeZero, nameSlot, beforeZero_append_zeros]

theorem readBack_of_short (plain : '\x00' ∉ name.toList)
    (short : (Utf8.encode name.toList).length < width) : readBack width name = name :=
  (readBack_eq width name).trans (nameOf_nameSlot short plain)

theorem toList_readBack {before : List Char} {tail : List UInt8}
    (cut : Utf8.Cut (beforeNul name.toList) (width - 1) before tail) :
    (readBack width name).toList = before ++ if tail = [] then [] else [Utf8.replacement] := by
  rw [readBack_eq, toList_nameOf_nameSlot cut]

theorem getName_putName (fits : offset + width ≤ record.length) :
    getName offset width (putName offset width name record) = .ok (readBack width name) := by
  rw [← length_nameSlot width name] at fits
  have held := holds_put fits
  rw [Holds, length_nameSlot] at held
  rw [getName, putName, held, readBack_eq]

theorem getElem?_nameSlot_last (room : 0 < width) :
    (nameSlot width name)[width - 1]? = some 0 := by
  have kept : ((Utf8.encode name.toList).take (width - 1)).length ≤ width - 1 :=
    List.length_take_le _ _
  rw [nameSlot, List.getElem?_append_right kept]
  exact List.getElem?_replicate_of_lt (by omega)

theorem getElem?_putName_last (fits : offset + width ≤ record.length) (room : 0 < width) :
    (putName offset width name record)[offset + width - 1]? = some 0 := by
  have last : offset + width - 1 - offset = width - 1 := by omega
  rw [← length_nameSlot width name] at fits
  rw [putName, getElem?_put fits, length_nameSlot, if_pos (by omega), last,
    getElem?_nameSlot_last room]

/-- A number that is written in a record is read back, and so is the beginning of a name that its
slot has room for, with a zero after it: the whole name when it is shorter than its slot and has no
zero. A write keeps the length of the record and all bytes outside its slot, so that it leaves what
is read of every slot that shares no byte with it, and writes in slots that share no byte give the
same record in either order. A field that leaves the record is refused, and no other one is. -/
theorem writes_local_and_read_back (record : Bytes) (offset : Nat) :
    (∀ n, offset + 2 ≤ record.length → get16 offset (put16 offset n record) = .ok n) ∧
    (∀ n, offset + 4 ≤ record.length → get32 offset (put32 offset n record) = .ok n) ∧
    (∀ n, offset + 8 ≤ record.length → get64 offset (put64 offset n record) = .ok n) ∧
    (∀ width name, offset + width ≤ record.length →
      getName offset width (putName offset width name record) = .ok (readBack width name) ∧
      (0 < width → (putName offset width name record)[offset + width - 1]? = some 0)) ∧
    (∀ width name,
      ('\x00' ∉ name.toList → (Utf8.encode name.toList).length < width →
        readBack width name = name) ∧
      ∃ before tail, Utf8.Cut (beforeNul name.toList) (width - 1) before tail ∧
        (readBack width name).toList = before ++ if tail = [] then [] else [Utf8.replacement]) ∧
    (∀ content : Content, offset + content.width ≤ record.length →
      (content.put offset record).length = record.length ∧
      (∀ i, ¬ (Slot.mk offset content.width).Covers i →
        (content.put offset record)[i]? = record[i]?) ∧
      (∀ (kind : Kind) start, (Slot.mk offset content.width).Separate ⟨start, kind.width⟩ →
        kind.get start (content.put offset record) = kind.get start record) ∧
      ∀ (other : Content) start, start + other.width ≤ record.length →
        (Slot.mk offset content.width).Separate ⟨start, other.width⟩ →
        other.put start (content.put offset record) =
          content.put offset (other.put start record)) ∧
    ∀ (kind : Kind) e, kind.get offset record = .error e ↔
      record.length < offset + kind.width ∧ e = kind.refusal offset record := by
  refine ⟨fun _ fits => get16_of_holds (holds_put fits),
    fun _ fits => get32_of_holds (holds_put fits), fun _ fits => get64_of_holds (holds_put fits),
    fun _ _ fits => ⟨getName_putName fits, getElem?_putName_last fits⟩, fun width name => ?_,
    fun content fits => ?_, fun _ _ => Kind.get_eq_error_iff⟩
  · obtain ⟨before, tail, cut⟩ := Utf8.exists_cut (beforeNul name.toList) (width - 1)
    exact ⟨readBack_of_short, before, tail, cut, toList_readBack cut⟩
  · exact ⟨Content.length_put fits, fun i => Content.getElem?_put_outside fits,
      fun kind start => Content.get_put fits, fun other start => Content.put_comm fits⟩

/-- A cut within the last character reads as a replacement, and an empty name within the slot is
separate from it. -/
theorem writes_local_and_read_back_accent :
    let record : Bytes := List.replicate 8 0xff
    let written := putName 2 4 "aaé" record
    2 + 4 ≤ record.length ∧ getName 2 4 written = .ok "aa\ufffd" ∧ written[5]? = some 0 ∧
      (Slot.mk 2 4).Separate ⟨3, 0⟩ ∧ getName 3 0 written = getName 3 0 record ∧
      (Slot.mk 2 4).Separate ⟨6, 2⟩ ∧ put16 6 7 written = putName 2 4 "aaé" (put16 6 7 record) ∧
      get64 2 record = .error (.shortField 8 2 8) := by
  intro record written
  have fits : 2 + 4 ≤ record.length := by decide
  have inner : (Slot.mk 2 4).Separate ⟨3, 0⟩ := by decide
  have behind : (Slot.mk 2 4).Separate ⟨6, 2⟩ := by decide
  obtain ⟨-, -, -, names, -, fields, refusals⟩ := writes_local_and_read_back record 2
  obtain ⟨read, last⟩ := names 4 "aaé" fits
  obtain ⟨-, -, unread, commute⟩ := fields (.name 4 "aaé") fits
  have cut : Utf8.Cut (beforeNul "aaé".toList) 3 ['a', 'a']
      ((String.utf8EncodeChar 'é').take 1) :=
    .inside (by decide : _ = ['a', 'a'] ++ 'é' :: []) (by decide) (by decide) (by decide)
  have text : readBack 4 "aaé" = "aa\ufffd" :=
    String.toList_inj.mp ((toList_readBack cut).trans (by decide))
  exact ⟨fits, text ▸ read, last (by decide), inner, unread (.name 0) 3 inner, behind,
    commute (.word16 7) 6 (by decide) behind, (refusals .word64 _).mpr ⟨by decide, rfl⟩⟩

end FilterRecord.Field
