/- Proofs/Options/Operand
   digest: The text in which an argument is shown converts to the argument. -/

import FilterRecord.Options.Entry
import FilterRecord.Proofs.Outcome
import FilterRecord.Proofs.Text.Numeral

set_option autoImplicit false
set_option relaxedAutoImplicit false

namespace FilterRecord.Options

open Text

/-- How the argument of each kind of option is shown, and what it is converted to. -/
inductive Shows : OperandKind → Option String → Operand → Prop
  | flag : Shows .flag none .absent
  | text (s : String) : Shows .text (some s) (.text s)
  | word8 (n : UInt8) : Shows .word8 (some (Numeral.decimal n.toNat)) (.word8 n)
  | word32 (n : UInt32) : Shows .word32 (some (Numeral.hex n.toNat)) (.word32 n)
  | value (n : UInt32) :
    Shows .masked (some (Numeral.hex n.toNat)) (.masked ⟨n, MaskedWord.fullMask⟩)
  | masked (w : MaskedWord) :
    Shows .masked (some (Numeral.hex w.value.toNat ++ "/" ++ Numeral.hex w.mask.toNat)) (.masked w)
  | prefixLength {n : UInt8} : n.toNat ≤ 128 →
    Shows .prefixLength (some (Numeral.decimal n.toNat)) (.prefixLength n)

theorem readMasked?_value (n : UInt32) :
    readMasked? (Numeral.hex n.toNat) = some ⟨n, MaskedWord.fullMask⟩ := by
  have small := n.toNat_lt
  have read := Numeral.read?_hex (n := n.toNat) (by omega) Numeral.ends_nil
  rw [List.append_nil] at read
  have fits : ¬ 0x100000000 ≤ n.toNat := by omega
  simp [readMasked?, read, fits]

theorem readMasked?_masked (w : MaskedWord) :
    readMasked? (Numeral.hex w.value.toNat ++ "/" ++ Numeral.hex w.mask.toNat) = some w := by
  have small := w.value.toNat_lt
  have ends : Numeral.Ends ('/' :: (Numeral.hex w.mask.toNat).toList) := by
    simp [Numeral.Ends]
  have read := Numeral.read?_hex (n := w.value.toNat) (by omega) ends
  have fits : ¬ 0x100000000 ≤ w.value.toNat := by omega
  simp [readMasked?, read, fits, Numeral.word32?_hex]

private theorem bounded_of_whole {extension s : String} {e : Entry} {high n : Nat}
    (whole : Numeral.whole? s.toList = some n) (below : n ≤ high) :
    Operand.bounded extension e high s = .ok n := by
  simp [Operand.bounded, Numeral.bounded?_of_whole? whole (Nat.zero_le n) below]

theorem Shows.takes {e : Entry} {argument : Option String} {operand : Operand}
    (h : Shows e.kind argument operand) : argument.isSome = e.takesArgument := by
  unfold Entry.takesArgument
  generalize e.kind = kind at h
  cases h <;> rfl

theorem Shows.read {extension : String} {e : Entry} {argument : Option String} {operand : Operand}
    (h : Shows e.kind argument operand) : Operand.read extension e argument = .ok operand := by
  generalize kind : e.kind = k at h
  cases h with
  | flag => rfl
  | text s => simp [Operand.read, Operand.ofText, kind]
  | word8 n =>
    have small := n.toNat_lt
    have bounded : Operand.bounded extension e 255 (Numeral.decimal n.toNat) = .ok n.toNat :=
      bounded_of_whole (Numeral.whole?_decimal (by omega)) (by omega)
    simp [Operand.read, Operand.ofText, kind, bounded, Except.map]
  | word32 n =>
    have small := n.toNat_lt
    have bounded : Operand.bounded extension e 4294967295 (Numeral.hex n.toNat) = .ok n.toNat :=
      bounded_of_whole (Numeral.whole?_hex (by omega)) (by omega)
    simp [Operand.read, Operand.ofText, kind, bounded, Except.map]
  | value n => simp [Operand.read, Operand.ofText, kind, readMasked?_value]
  | masked w => simp [Operand.read, Operand.ofText, kind, readMasked?_masked]
  | @prefixLength n small =>
    have bounded : Operand.bounded extension e 128 (Numeral.decimal n.toNat) = .ok n.toNat :=
      bounded_of_whole (Numeral.whole?_decimal (by omega)) small
    simp [Operand.read, Operand.ofText, kind, bounded, Except.map]

theorem bounded_ok {extension s : String} {e : Entry} {high n : Nat}
    (ok : Operand.bounded extension e high s = .ok n) :
    Numeral.whole? s.toList = some n ∧ n ≤ high := by
  unfold Operand.bounded at ok
  split at ok
  · rename_i found
    cases ok
    obtain ⟨whole, range⟩ := Option.filter_eq_some_iff.mp found
    exact ⟨whole, by simpa using range⟩
  · cases ok

theorem prefixLength_le {extension : String} {e : Entry} {argument : Option String} {n : UInt8}
    (read : Operand.read extension e argument = .ok (.prefixLength n)) : n.toNat ≤ 128 := by
  unfold Operand.read at read
  split at read
  · unfold Operand.ofText at read
    split at read
    case h_5 =>
      obtain ⟨length, found, made⟩ := map_eq_ok_iff.mp read
      cases made
      have small := (bounded_ok found).2
      rw [UInt8.toNat_ofNat']
      omega
    case h_1 | h_6 => cases read
    case h_7 => split at read <;> cases read
    all_goals
      obtain ⟨_, _, made⟩ := map_eq_ok_iff.mp read
      cases made
  · cases read

theorem hex_le {extension : String} {e : Entry} {n : Nat} {operand : Operand}
    (kind : e.kind = .word32 ∨ e.kind = .masked) (small : n < 0x10000000000000000)
    (read : Operand.read extension e (some (Numeral.hex n)) = .ok operand) : n ≤ 0xffffffff := by
  rcases kind with kind | kind
  · simp only [Operand.read, Operand.ofText, kind] at read
    obtain ⟨length, bounded, -⟩ := map_eq_ok_iff.mp read
    obtain ⟨whole, most⟩ := bounded_ok bounded
    rw [Numeral.whole?_hex small] at whole
    exact Option.some.inj whole ▸ most
  · simp only [Operand.read, Operand.ofText, kind] at read
    have number := Numeral.read?_hex small Numeral.ends_nil
    rw [List.append_nil] at number
    split at read
    · rename_i found
      simp only [readMasked?, number] at found
      split at found
      · cases found
      · omega
    · cases read

end FilterRecord.Options
