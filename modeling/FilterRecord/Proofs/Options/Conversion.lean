/- Proofs/Options/Conversion
   digest: Which texts an argument of each kind may be, and what it is converted to. -/

import FilterRecord.Proofs.Options.Operand
import FilterRecord.Proofs.Text.NumeralGrammar

set_option autoImplicit false
set_option relaxedAutoImplicit false

namespace FilterRecord.Options

open Text
open Numeral (Longest Writes)

/-- What a text is as the argument of an option of some kind. A number is kept as it is written, so
the highest one is that of the word that keeps it, or 128 for the length of a route. -/
inductive Converts (s : String) : OperandKind → Operand → Prop
  | flag : Converts s .flag .absent
  | text : Converts s .text (.text s)
  | word8 (n : UInt8) (writes : Writes s.toList n.toNat) : Converts s .word8 (.word8 n)
  | word16 (n : UInt16) (writes : Writes s.toList n.toNat) : Converts s .word16 (.word16 n)
  | word32 (n : UInt32) (writes : Writes s.toList n.toNat) : Converts s .word32 (.word32 n)
  | prefixLength (n : UInt8) (writes : Writes s.toList n.toNat) (small : n.toNat ≤ 128) :
    Converts s .prefixLength (.prefixLength n)
  | value (n : UInt32) (writes : Writes s.toList n.toNat) :
    Converts s .masked (.masked ⟨n, MaskedWord.fullMask⟩)
  | masked {value mask : List Char} (word : MaskedWord) (text : s.toList = value ++ '/' :: mask)
    (writes_value : Writes value word.value.toNat) (writes_mask : Writes mask word.mask.toNat) :
    Converts s .masked (.masked word)

variable {s extension : String} {e : Entry} {operand : Operand} {word : MaskedWord}

theorem readMasked?_eq_some_iff :
    readMasked? s = some word ↔ Converts s .masked (.masked word) := by
  constructor
  · intro read
    unfold readMasked? at read
    split at read
    · cases read
    · rename_i value rest found
      obtain ⟨⟨numeral, text, writes, -⟩, -⟩ := Numeral.read?_eq_some_iff.mp found
      split at read
      · cases read
      · rename_i small
        have exact_value : (UInt32.ofNat value).toNat = value :=
          UInt32.toNat_ofNat_of_lt' (by simp [UInt32.size]; omega)
        rw [← exact_value] at writes
        split at read
        · cases read
          rw [List.append_nil] at text
          exact .value _ (text ▸ writes)
        · obtain ⟨mask, found_mask, rfl⟩ := Option.map_eq_some_iff.mp read
          exact .masked _ text writes (Numeral.word32?_eq_some_iff.mp found_mask)
        · cases read
  · intro converts
    have stroke (mask : List Char) : Numeral.Ends ('/' :: mask) := by simp [Numeral.Ends]
    unfold readMasked?
    cases converts with
    | value n writes =>
      have fits := n.toNat_lt
      have read := Numeral.read?_append writes (by omega) Numeral.ends_nil
      rw [List.append_nil] at read
      simp only [read]
      rw [if_neg (by omega), UInt32.ofNat_toNat]
    | @masked value mask word text writes_value writes_mask =>
      have fits := word.value.toNat_lt
      have read := Numeral.read?_append writes_value (by omega) (stroke mask)
      simp only [text, read]
      rw [if_neg (by omega), UInt32.ofNat_toNat, Numeral.word32?_eq_some_iff.mpr writes_mask]
      rfl

private theorem bounded_eq_ok_iff {high n : Nat} (below : high < 0x10000000000000000) :
    Operand.bounded extension e high s = .ok n ↔ Writes s.toList n ∧ n ≤ high := by
  have range : Writes s.toList n ∧ n ≤ high ↔ Numeral.bounded? 0 high s.toList = some n := by
    rw [Numeral.bounded?_eq_some_iff]
    exact ⟨fun ⟨writes, most⟩ => ⟨writes, by omega, Nat.zero_le n, most⟩,
      fun ⟨writes, _, _, most⟩ => ⟨writes, most⟩⟩
  rw [range]
  unfold Operand.bounded
  split <;> simp_all

private theorem kept_eq_ok_iff {ω : Type} {high : Nat} (keep : Nat → ω) (number : ω → Nat)
    (wrap : ω → Operand) (below : high < 0x10000000000000000)
    (number_keep : ∀ n ≤ high, number (keep n) = n) (keep_number : ∀ w, keep (number w) = w) :
    (Operand.bounded extension e high s).map (fun n => wrap (keep n)) = .ok operand ↔
      ∃ w, Writes s.toList (number w) ∧ number w ≤ high ∧ wrap w = operand := by
  rw [map_eq_ok_iff]
  constructor
  · rintro ⟨n, bounded, rfl⟩
    obtain ⟨writes, most⟩ := (bounded_eq_ok_iff below).mp bounded
    rw [← number_keep n most] at writes most
    exact ⟨keep n, writes, most, rfl⟩
  · rintro ⟨w, writes, most, rfl⟩
    exact ⟨number w, (bounded_eq_ok_iff below).mpr ⟨writes, most⟩, by rw [keep_number]⟩

private theorem byte_eq_ok_iff {high : Nat} (wrap : UInt8 → Operand) (fits : high ≤ 255) :
    (Operand.bounded extension e high s).map (fun n => wrap (UInt8.ofNat n)) = .ok operand ↔
      ∃ w : UInt8, Writes s.toList w.toNat ∧ w.toNat ≤ high ∧ wrap w = operand :=
  kept_eq_ok_iff UInt8.ofNat UInt8.toNat wrap (by omega)
    (fun _ most => UInt8.toNat_ofNat_of_lt' (Nat.lt_of_le_of_lt most (by simp [UInt8.size]; omega)))
    (fun _ => UInt8.ofNat_toNat)

theorem Operand.ofText_eq_ok_iff :
    Operand.ofText extension e s = .ok operand ↔ Converts s e.kind operand := by
  unfold Operand.ofText
  generalize e.kind = kind
  cases kind with
  | flag =>
    rw [Except.ok.injEq]
    exact ⟨fun same => same ▸ .flag, fun | .flag => rfl⟩
  | text =>
    rw [Except.ok.injEq]
    exact ⟨fun same => same ▸ .text, fun | .text => rfl⟩
  | word8 =>
    dsimp only
    rw [byte_eq_ok_iff .word8 (by decide)]
    constructor
    · rintro ⟨w, writes, -, rfl⟩
      exact .word8 w writes
    · intro converts
      cases converts with
      | word8 w writes => exact ⟨w, writes, Nat.le_of_lt_succ w.toNat_lt, rfl⟩
  | word16 =>
    dsimp only
    rw [kept_eq_ok_iff UInt16.ofNat UInt16.toNat .word16 (by decide)
      (fun _ most => UInt16.toNat_ofNat_of_lt' (Nat.lt_succ_of_le most))
      fun _ => UInt16.ofNat_toNat]
    constructor
    · rintro ⟨w, writes, -, rfl⟩
      exact .word16 w writes
    · intro converts
      cases converts with
      | word16 w writes => exact ⟨w, writes, Nat.le_of_lt_succ w.toNat_lt, rfl⟩
  | word32 =>
    dsimp only
    rw [kept_eq_ok_iff UInt32.ofNat UInt32.toNat .word32 (by decide)
      (fun _ most => UInt32.toNat_ofNat_of_lt' (Nat.lt_succ_of_le most))
      fun _ => UInt32.ofNat_toNat]
    constructor
    · rintro ⟨w, writes, -, rfl⟩
      exact .word32 w writes
    · intro converts
      cases converts with
      | word32 w writes => exact ⟨w, writes, Nat.le_of_lt_succ w.toNat_lt, rfl⟩
  | prefixLength =>
    dsimp only
    rw [byte_eq_ok_iff .prefixLength (by decide)]
    constructor
    · rintro ⟨w, writes, small, rfl⟩
      exact .prefixLength w writes small
    · intro converts
      cases converts with
      | prefixLength w writes small => exact ⟨w, writes, small, rfl⟩
  | masked =>
    dsimp only
    constructor
    · intro read
      split at read
      · rename_i word found
        cases read
        exact readMasked?_eq_some_iff.mp found
      · cases read
    · intro converts
      have word : ∃ word, operand = .masked word := by
        cases converts with
        | value n _ => exact ⟨_, rfl⟩
        | masked word _ _ _ => exact ⟨word, rfl⟩
      obtain ⟨word, rfl⟩ := word
      rw [readMasked?_eq_some_iff.mpr converts]

/-- Numbers are read as they are written. The longest numeral at the start of a text is read, with
its number where this has no more than 64 bits; such a number, printed in base ten or sixteen, reads
back. An argument is converted exactly where its text is one that its kind allows, a number to the
word that is this number, and a masked word is read from a value, or from a value and a mask. -/
theorem numbers_read_exactly :
    (∀ text n rest, Numeral.read? text = some (n, rest) ↔
      (∃ numeral, text = numeral ++ rest ∧ Writes numeral n ∧ Longest numeral text) ∧
        n < UInt64.size) ∧
    (∀ n, (Numeral.whole? (Numeral.decimal n).toList = some n ↔ n < UInt64.size) ∧
      (Numeral.whole? (Numeral.hex n).toList = some n ↔ n < UInt64.size)) ∧
    (∀ extension e s operand,
      Operand.ofText extension e s = .ok operand ↔ Converts s e.kind operand) ∧
    (∀ s word, readMasked? s = some word ↔ Converts s .masked (.masked word)) := by
  refine ⟨fun _ _ _ => Numeral.read?_eq_some_iff, fun n => ⟨⟨fun read => ?_, fun small => ?_⟩,
    ⟨fun read => ?_, fun small => ?_⟩⟩, fun _ _ _ _ => Operand.ofText_eq_ok_iff,
    fun _ _ => readMasked?_eq_some_iff⟩
  · exact (Numeral.whole?_eq_some_iff.mp read).2
  · exact Numeral.whole?_decimal small
  · exact (Numeral.whole?_eq_some_iff.mp read).2
  · exact Numeral.whole?_hex small

end FilterRecord.Options
