/- Proofs/Record/Writes
   digest: What is written at places of a record that do not meet is read back; all else stays. -/

import FilterRecord.Proofs.Outcome
import FilterRecord.Proofs.Record.Field

set_option autoImplicit false
set_option relaxedAutoImplicit false

namespace FilterRecord.Field

open Text

variable {record bytes : Bytes} {offset width i : Nat}

structure Slot where
  offset : Nat
  width : Nat
deriving DecidableEq, Repr

namespace Slot

def Covers (s : Slot) (i : Nat) : Prop := s.offset ≤ i ∧ i < s.offset + s.width

instance (s : Slot) (i : Nat) : Decidable (s.Covers i) :=
  inferInstanceAs (Decidable (_ ∧ _))

def Apart (s t : Slot) : Prop := s.offset + s.width ≤ t.offset ∨ t.offset + t.width ≤ s.offset

instance (s t : Slot) : Decidable (s.Apart t) :=
  inferInstanceAs (Decidable (_ ∨ _))

def of (s : Slot) (record : Bytes) : Bytes := (record.drop s.offset).take s.width

theorem getElem?_of (s : Slot) (record : Bytes) (i : Nat) :
    (s.of record)[i]? = if i < s.width then record[s.offset + i]? else none := by
  rw [of, List.getElem?_take, List.getElem?_drop]

end Slot

structure Write where
  offset : Nat
  bytes : Bytes
deriving DecidableEq, Repr

def Write.slot (w : Write) : Slot := ⟨w.offset, w.bytes.length⟩

def puts (writes : List Write) (record : Bytes) : Bytes :=
  writes.foldl (fun record w => put w.offset w.bytes record) record

theorem length_put (fits : offset + bytes.length ≤ record.length) :
    (put offset bytes record).length = record.length := by
  simp only [put, List.length_append, List.length_take, List.length_drop]
  omega

theorem getElem?_put (fits : offset + bytes.length ≤ record.length) :
    (put offset bytes record)[i]? =
      if offset ≤ i ∧ i < offset + bytes.length then bytes[i - offset]? else record[i]? := by
  have head : (record.take offset).length = offset := List.length_take_of_le (by omega)
  rw [put, List.append_assoc]
  by_cases before : i < offset
  · rw [if_neg (by omega), List.getElem?_append_left (by omega), List.getElem?_take_of_lt before]
  · rw [List.getElem?_append_right (by omega), head]
    by_cases inside : i < offset + bytes.length
    · rw [if_pos (by omega), List.getElem?_append_left (by omega)]
    · rw [if_neg (by omega), List.getElem?_append_right (by omega), List.getElem?_drop]
      congr 1
      omega

theorem put_append_zeros (bytes : Bytes) {before : Bytes} (count : Nat)
    (behind : before.length ≤ offset)
    (fits : offset + bytes.length ≤ before.length + count) :
    put offset bytes (before ++ zeros count) = before ++ zeros (offset - before.length) ++
      (bytes ++ zeros (before.length + count - (offset + bytes.length))) := by
  have gap : min (offset - before.length) count = offset - before.length := by omega
  have rest : count - (offset + bytes.length - before.length) =
      before.length + count - (offset + bytes.length) := by omega
  rw [put, List.take_append, List.drop_append, List.take_of_length_le behind,
    List.drop_eq_nil_of_le (by omega), zeros, List.take_replicate, List.drop_replicate, gap, rest]
  simp [zeros]

variable {writes : List Write}

/-- Writes in the order of their places, from a start on and within a size. -/
def Ascending (size : Nat) : Nat → List Write → Prop
  | start, [] => start ≤ size
  | start, w :: rest => start ≤ w.offset ∧ Ascending size (w.offset + w.bytes.length) rest

/-- The bytes of ascending writes from a start on, with zeros where nothing is written. -/
def laid (size : Nat) : Nat → List Write → Bytes
  | start, [] => zeros (size - start)
  | start, w :: rest =>
    zeros (w.offset - start) ++ (w.bytes ++ laid size (w.offset + w.bytes.length) rest)

private theorem Ascending.start_le {size start : Nat} (ascending : Ascending size start writes) :
    start ≤ size := by
  induction writes generalizing start with
  | nil => exact ascending
  | cons w rest ih =>
    have later := ih ascending.2
    have first := ascending.1
    omega

private theorem puts_append_zeros {size : Nat} (before : Bytes)
    (ascending : Ascending size before.length writes) :
    puts writes (before ++ zeros (size - before.length)) =
      before ++ laid size before.length writes := by
  induction writes generalizing before with
  | nil => rfl
  | cons w rest ih =>
    obtain ⟨behind, ascending⟩ := ascending
    have inside := ascending.start_le
    have length : (before ++ zeros (w.offset - before.length) ++ w.bytes).length =
        w.offset + w.bytes.length := by
      simp only [List.length_append, length_zeros]
      omega
    have count : before.length + (size - before.length) - (w.offset + w.bytes.length) =
        size - (w.offset + w.bytes.length) := by omega
    have first := put_append_zeros w.bytes (size - before.length) behind (by omega)
    rw [count, ← List.append_assoc] at first
    rw [← length] at ascending
    have later := ih _ ascending
    rw [length] at later
    rw [puts, List.foldl_cons, first]
    simpa [laid, puts] using later

theorem puts_zeros {size : Nat} (ascending : Ascending size 0 writes) :
    puts writes (zeros size) = laid size 0 writes := by
  have step := puts_append_zeros [] ascending
  simpa using step

@[simp] theorem zeros_zero : zeros 0 = [] := rfl

theorem length_puts (fits : ∀ w ∈ writes, w.offset + w.bytes.length ≤ record.length) :
    (puts writes record).length = record.length := by
  induction writes generalizing record with
  | nil => rfl
  | cons w rest ih =>
    obtain ⟨own, others⟩ := List.forall_mem_cons.mp fits
    have same := length_put own
    have fits' : ∀ v ∈ rest, v.offset + v.bytes.length ≤ (put w.offset w.bytes record).length := by
      rwa [same]
    exact (ih fits').trans same

theorem getElem?_puts_outside (fits : ∀ w ∈ writes, w.offset + w.bytes.length ≤ record.length)
    (outside : ∀ w ∈ writes, ¬ w.slot.Covers i) : (puts writes record)[i]? = record[i]? := by
  induction writes generalizing record with
  | nil => rfl
  | cons w rest ih =>
    obtain ⟨own, others⟩ := List.forall_mem_cons.mp fits
    obtain ⟨missed, rest_missed⟩ := List.forall_mem_cons.mp outside
    have fits' : ∀ v ∈ rest, v.offset + v.bytes.length ≤ (put w.offset w.bytes record).length := by
      rwa [length_put own]
    exact (ih fits' rest_missed).trans ((getElem?_put own).trans (if_neg missed))

theorem getElem?_puts_inside (fits : ∀ w ∈ writes, w.offset + w.bytes.length ≤ record.length)
    (apart : writes.Pairwise fun v w => v.slot.Apart w.slot) {w : Write} (member : w ∈ writes)
    (covers : w.slot.Covers i) : (puts writes record)[i]? = w.bytes[i - w.offset]? := by
  induction writes generalizing record with
  | nil => cases member
  | cons v rest ih =>
    obtain ⟨own, others⟩ := List.forall_mem_cons.mp fits
    obtain ⟨first, apart⟩ := List.pairwise_cons.mp apart
    have later : ∀ w ∈ rest, w.offset + w.bytes.length ≤ (put v.offset v.bytes record).length := by
      rwa [length_put own]
    rcases List.mem_cons.mp member with rfl | member
    · have outside : ∀ u ∈ rest, ¬ u.slot.Covers i := by
        intro u known meets
        have disjoint := first u known
        simp only [Slot.Apart, Slot.Covers] at disjoint covers meets
        omega
      exact (getElem?_puts_outside later outside).trans ((getElem?_put own).trans (if_pos covers))
    · exact ih later apart member

theorem of_puts (fits : ∀ w ∈ writes, w.offset + w.bytes.length ≤ record.length)
    (apart : writes.Pairwise fun v w => v.slot.Apart w.slot) {w : Write} (member : w ∈ writes) :
    w.slot.of (puts writes record) = w.bytes := by
  apply List.ext_getElem?
  intro i
  rw [Slot.getElem?_of]
  by_cases inside : i < w.slot.width
  · have covers : w.slot.Covers (w.slot.offset + i) := ⟨by omega, by omega⟩
    have written := getElem?_puts_inside fits apart member covers
    rw [if_pos inside, written]
    simp [Write.slot]
  · rw [if_neg inside]
    exact (List.getElem?_eq_none (Nat.le_of_not_lt inside)).symm

/-! What a record holds at an offset, byte by byte and as it is read. -/

theorem getElem?_of_holds (h : Holds offset bytes record)
    (inside : offset ≤ i ∧ i < offset + bytes.length) : record[i]? = bytes[i - offset]? := by
  unfold Holds range? at h
  split at h
  · have whole := Option.some.inj h
    rw [← whole, List.getElem?_take_of_lt (by omega), List.getElem?_drop]
    congr 1
    omega
  · cases h

theorem number_lt (bytes : Bytes) : number bytes < 256 ^ bytes.length := by
  induction bytes with
  | nil => simp [number]
  | cons b bytes ih =>
    have small : b.toNat < 256 := b.toNat_lt
    rw [number, List.length_cons, Nat.pow_succ]
    omega

theorem bytesOf_number (bytes : Bytes) : bytesOf bytes.length (number bytes) = bytes := by
  induction bytes with
  | nil => rfl
  | cons b bytes ih =>
    have small : b.toNat < 256 := b.toNat_lt
    have low : UInt8.ofNat (b.toNat + 256 * number bytes) = b := by
      rw [← UInt8.toNat_inj, UInt8.toNat_ofNat']
      omega
    have high : (b.toNat + 256 * number bytes) / 256 = number bytes := by omega
    rw [List.length_cons, number, bytesOf, low, high, ih]

theorem range?_eq_some_iff : range? offset width record = some bytes ↔
    offset + width ≤ record.length ∧ (Slot.mk offset width).of record = bytes := by
  unfold range?
  split
  · rename_i fits
    simp [fits, Slot.of]
  · rename_i short
    simp [short]

theorem length_of_slot (fits : offset + width ≤ record.length) :
    ((Slot.mk offset width).of record).length = width := by
  simp only [Slot.of, List.length_take, List.length_drop]
  omega

private theorem holds_of_getNumber {n : Nat} (read : getNumber offset width record = .ok n) :
    n < 256 ^ width ∧ Holds offset (bytesOf width n) record := by
  unfold getNumber at read
  split at read
  · rename_i bytes found
    cases read
    obtain ⟨fits, rfl⟩ := range?_eq_some_iff.mp found
    have length := length_of_slot fits
    have below := number_lt ((Slot.mk offset width).of record)
    have same := bytesOf_number ((Slot.mk offset width).of record)
    rw [length] at below same
    refine ⟨below, ?_⟩
    rw [same, Holds, length, found]
  · cases read

theorem holds_of_get8 {n : UInt8} (read : get8 offset record = .ok n) :
    Holds offset [n] record := by
  obtain ⟨k, found, rfl⟩ := map_eq_ok_iff.mp read
  exact (holds_of_getNumber found).2

theorem holds_of_get16 {n : UInt16} (read : get16 offset record = .ok n) :
    Holds offset (word16 n) record := by
  obtain ⟨k, found, rfl⟩ := map_eq_ok_iff.mp read
  obtain ⟨below, held⟩ := holds_of_getNumber found
  have value : (UInt16.ofNat k).toNat = k := UInt16.toNat_ofNat_of_lt' below
  rwa [word16, value]

theorem holds_of_get32 {n : UInt32} (read : get32 offset record = .ok n) :
    Holds offset (word32 n) record := by
  obtain ⟨k, found, rfl⟩ := map_eq_ok_iff.mp read
  obtain ⟨below, held⟩ := holds_of_getNumber found
  have value : (UInt32.ofNat k).toNat = k := UInt32.toNat_ofNat_of_lt' below
  rwa [word32, value]

theorem holds_of_get64 {n : UInt64} (read : get64 offset record = .ok n) :
    Holds offset (word64 n) record := by
  obtain ⟨k, found, rfl⟩ := map_eq_ok_iff.mp read
  obtain ⟨below, held⟩ := holds_of_getNumber found
  have value : (UInt64.ofNat k).toNat = k := UInt64.toNat_ofNat_of_lt' below
  rwa [word64, value]

private theorem exists_getNumber {α : Type} (f : Nat → α)
    (fits : offset + width ≤ record.length) :
    ∃ n, (getNumber offset width record).map f = .ok n := by
  simp [getNumber, range?, fits, Except.map]

theorem exists_get8 (fits : offset + 1 ≤ record.length) : ∃ n, get8 offset record = .ok n :=
  exists_getNumber UInt8.ofNat fits

theorem exists_get16 (fits : offset + 2 ≤ record.length) : ∃ n, get16 offset record = .ok n :=
  exists_getNumber UInt16.ofNat fits

theorem exists_get32 (fits : offset + 4 ≤ record.length) : ∃ n, get32 offset record = .ok n :=
  exists_getNumber UInt32.ofNat fits

theorem exists_get64 (fits : offset + 8 ≤ record.length) : ∃ n, get64 offset record = .ok n :=
  exists_getNumber UInt64.ofNat fits

theorem getName_ok_iff {name : String} : getName offset width record = .ok name ↔
    offset + width ≤ record.length ∧ name = nameOf ((Slot.mk offset width).of record) := by
  unfold getName
  constructor
  · intro read
    split at read
    · rename_i slot found
      cases read
      obtain ⟨fits, rfl⟩ := range?_eq_some_iff.mp found
      exact ⟨fits, rfl⟩
    · cases read
  · rintro ⟨fits, rfl⟩
    simp [range?, fits, Slot.of]

end FilterRecord.Field
