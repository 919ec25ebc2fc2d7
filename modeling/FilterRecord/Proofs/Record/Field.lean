/- Proofs/Record/Field
   digest: Words and names written into a record are read back from it at their offsets. -/

import Mathlib.Algebra.Group.Nat.Defs
import Mathlib.Tactic.Common
import FilterRecord.Record.Field
import FilterRecord.Proofs.Text.Utf8

set_option autoImplicit false
set_option relaxedAutoImplicit false

namespace FilterRecord.Field

open Text

@[simp] theorem length_bytesOf (width n : Nat) : (bytesOf width n).length = width := by
  induction width generalizing n with
  | zero => rfl
  | succ width ih => simp [bytesOf, ih]

theorem number_bytesOf (width n : Nat) : number (bytesOf width n) = n % 256 ^ width := by
  induction width generalizing n with
  | zero => simp [bytesOf, number, Nat.mod_one]
  | succ width ih =>
    have low : (UInt8.ofNat n).toNat = n % 256 := UInt8.toNat_ofNat'
    rw [bytesOf, number, ih, low, Nat.pow_succ', Nat.mod_mul]

@[simp] theorem length_word16 (n : UInt16) : (word16 n).length = 2 := length_bytesOf 2 _

@[simp] theorem length_word32 (n : UInt32) : (word32 n).length = 4 := length_bytesOf 4 _

@[simp] theorem length_word64 (n : UInt64) : (word64 n).length = 8 := length_bytesOf 8 _

theorem word16_inj {m n : UInt16} : word16 m = word16 n ↔ m = n := by
  refine ⟨fun same => ?_, fun same => by rw [same]⟩
  have value := congrArg number same
  have small_m : m.toNat < 256 ^ 2 := m.toNat_lt
  have small_n : n.toNat < 256 ^ 2 := n.toNat_lt
  rwa [word16, word16, number_bytesOf, number_bytesOf, Nat.mod_eq_of_lt small_m,
    Nat.mod_eq_of_lt small_n, UInt16.toNat_inj] at value

@[simp] theorem length_zeros (count : Nat) : (zeros count).length = count :=
  List.length_replicate

@[simp] theorem length_nameSlot (width : Nat) (name : String) :
    (nameSlot width name).length = width := by
  simp only [nameSlot, List.length_append, length_zeros, List.length_take]
  omega

def Holds (offset : Nat) (bytes record : Bytes) : Prop :=
  range? offset bytes.length record = some bytes

theorem holds_first (bytes rest : Bytes) : Holds 0 bytes (bytes ++ rest) := by
  simp [Holds, range?]

theorem holds_all (bytes : Bytes) : Holds 0 bytes bytes := by
  simp [Holds, range?]

theorem holds_after (before : Bytes) {bytes rest : Bytes} {offset : Nat}
    (h : Holds offset bytes rest) : Holds (offset + before.length) bytes (before ++ rest) := by
  unfold Holds range? at h ⊢
  split at h
  · rename_i fits
    rw [if_pos (by rw [List.length_append]; omega), Nat.add_comm offset,
      List.drop_length_add_append]
    exact h
  · exact absurd h (by simp)

private theorem getNumber_of_holds {offset : Nat} {bytes record : Bytes}
    (h : Holds offset bytes record) :
    getNumber offset bytes.length record = .ok (number bytes) := by
  unfold Holds at h
  simp [getNumber, h]

theorem get8_of_holds {offset : Nat} {n : UInt8} {record : Bytes} (h : Holds offset [n] record) :
    get8 offset record = .ok n := by
  have read : getNumber offset 1 record = .ok (number [n]) := getNumber_of_holds h
  simp [get8, read, number, Except.map]

theorem get16_of_holds {offset : Nat} {n : UInt16} {record : Bytes}
    (h : Holds offset (word16 n) record) : get16 offset record = .ok n := by
  have read := getNumber_of_holds h
  have small : n.toNat < 256 ^ 2 := n.toNat_lt
  rw [length_word16, word16, number_bytesOf, Nat.mod_eq_of_lt small] at read
  simp [get16, read, Except.map]

theorem get32_of_holds {offset : Nat} {n : UInt32} {record : Bytes}
    (h : Holds offset (word32 n) record) : get32 offset record = .ok n := by
  have read := getNumber_of_holds h
  have small : n.toNat < 256 ^ 4 := n.toNat_lt
  rw [length_word32, word32, number_bytesOf, Nat.mod_eq_of_lt small] at read
  simp [get32, read, Except.map]

theorem get64_of_holds {offset : Nat} {n : UInt64} {record : Bytes}
    (h : Holds offset (word64 n) record) : get64 offset record = .ok n := by
  have read := getNumber_of_holds h
  have small : n.toNat < 256 ^ 8 := n.toNat_lt
  rw [length_word64, word64, number_bytesOf, Nat.mod_eq_of_lt small] at read
  simp [get64, read, Except.map]

theorem nameOf_nameSlot {width : Nat} {name : String}
    (short : (Utf8.encode name.toList).length < width) (plain : '\x00' ∉ name.toList) :
    nameOf (nameSlot width name) = name := by
  have kept : (Utf8.encode name.toList).take (width - 1) = Utf8.encode name.toList :=
    List.take_of_length_le (by omega)
  have padded : zeros (width - (Utf8.encode name.toList).length) =
      0 :: zeros (width - (Utf8.encode name.toList).length - 1) := by
    rw [zeros, zeros, ← List.replicate_succ]
    congr 1
    omega
  have solid : ∀ b ∈ Utf8.encode name.toList, (b != 0) = true := by
    intro b hb
    simp only [bne_iff_ne, ne_eq]
    rintro rfl
    exact Utf8.zero_not_mem_encode plain hb
  simp only [nameOf, nameSlot, kept, padded]
  rw [List.takeWhile_append_of_pos solid]
  simp [Utf8.decodeLossy_encode]

theorem getName_of_holds {offset width : Nat} {name : String} {record : Bytes}
    (h : Holds offset (nameSlot width name) record)
    (short : (Utf8.encode name.toList).length < width) (plain : '\x00' ∉ name.toList) :
    getName offset width record = .ok name := by
  unfold Holds at h
  rw [length_nameSlot] at h
  simp [getName, h, nameOf_nameSlot short plain]

theorem checkSize_of_length {extension : String} {revision : UInt8} {size userspaceSize : Nat}
    {record : Bytes} (full : record.length = size) :
    checkSize extension revision size userspaceSize record = .ok () := by
  simp [checkSize, full]

end FilterRecord.Field
