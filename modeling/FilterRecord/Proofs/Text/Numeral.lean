/- Proofs/Text/Numeral
   digest: A number printed in base ten or sixteen is the numeral at the start of the text. -/

import Mathlib.Data.List.Basic
import Mathlib.Data.List.TakeWhile
import FilterRecord.Text.Blank
import FilterRecord.Text.Numeral

set_option autoImplicit false
set_option relaxedAutoImplicit false

namespace FilterRecord.Text.Numeral

/-- What stands after a numeral does not go on with a letter or a digit. -/
def Ends (rest : List Char) : Prop := ∀ c ∈ rest.head?, c.isAlphanum = false

theorem ends_nil : Ends [] := by
  simp [Ends]

theorem digitValue_digitChar : ∀ d < 16, digitValue (Nat.digitChar d) = some d := by
  decide

theorem isDigit_digitChar {base d : Nat} (small : base ≤ 16) (hd : d < base) :
    isDigit base (Nat.digitChar d) = true := by
  simp only [isDigit, digitValue_digitChar d (by omega), decide_eq_true_eq]
  exact hd

theorem valueOf_append_digitChar {base d : Nat} (small : base ≤ 16) (hd : d < base)
    (ds : List Char) :
    valueOf base (ds ++ [Nat.digitChar d]) = valueOf base ds * base + d := by
  simp only [valueOf, List.foldl_append, List.foldl_cons, List.foldl_nil,
    digitValue_digitChar d (by omega), Option.getD_some]

theorem valueOf_toDigits {base : Nat} (large : 1 < base) (small : base ≤ 16) (n : Nat) :
    valueOf base (Nat.toDigits base n) = n := by
  induction n using Nat.base_induction base large with
  | single m hm =>
    rw [Nat.toDigits_of_lt_base hm]
    simpa [valueOf] using valueOf_append_digitChar small hm []
  | digit m k hk hm ih =>
    rw [← Nat.toDigits_append_toDigits large hm hk, Nat.toDigits_of_lt_base hk,
      valueOf_append_digitChar small hk, ih, Nat.mul_comm]

theorem isDigit_of_mem_toDigits {base : Nat} (large : 1 < base) (small : base ≤ 16) (n : Nat) :
    ∀ c ∈ Nat.toDigits base n, isDigit base c = true := by
  induction n using Nat.base_induction base large with
  | single m hm =>
    rw [Nat.toDigits_of_lt_base hm]
    simpa using isDigit_digitChar small hm
  | digit m k hk hm ih =>
    rw [← Nat.toDigits_append_toDigits large hm hk, Nat.toDigits_of_lt_base hk]
    intro c hc
    rcases List.mem_append.mp hc with hc | hc
    · exact ih c hc
    · rw [List.mem_singleton.mp hc]
      exact isDigit_digitChar small hk

theorem head?_toDigits_ne_zero {base : Nat} (large : 1 < base) (n : Nat) (positive : 0 < n) :
    (Nat.toDigits base n).head? ≠ some '0' := by
  induction n using Nat.base_induction base large with
  | single m hm =>
    rw [Nat.toDigits_of_lt_base hm, List.head?_cons, ne_eq, Option.some.injEq,
      Nat.digitChar_eq_zero]
    omega
  | digit m k hk hm ih =>
    rw [← Nat.toDigits_append_toDigits large hm hk,
      List.head?_append_of_ne_nil _ Nat.toDigits_ne_nil]
    exact ih hm

theorem isAlphanum_of_digitValue {c : Char} {d : Nat} (h : digitValue c = some d) :
    c.isAlphanum = true := by
  unfold digitValue at h
  split at h
  · rename_i range
    have digit : c.isDigit = true :=
      Bool.and_eq_true_iff.mpr ⟨decide_eq_true range.1, decide_eq_true range.2⟩
    exact Bool.or_eq_true_iff.mpr (.inr digit)
  · split at h
    · rename_i range
      have last : c ≤ 'z' := Char.le_trans range.2 (by decide)
      have lower : c.isLower = true :=
        Bool.and_eq_true_iff.mpr ⟨decide_eq_true range.1, decide_eq_true last⟩
      exact Bool.or_eq_true_iff.mpr (.inl (Bool.or_eq_true_iff.mpr (.inr lower)))
    · split at h
      · rename_i range
        have last : c ≤ 'Z' := Char.le_trans range.2 (by decide)
        have upper : c.isUpper = true := decide_eq_true ⟨range.1, last⟩
        exact Bool.or_eq_true_iff.mpr (.inl (Bool.or_eq_true_iff.mpr (.inl upper)))
      · exact absurd h (by simp)

theorem isAlphanum_of_isDigit {base : Nat} {c : Char} (h : isDigit base c = true) :
    c.isAlphanum = true := by
  unfold isDigit at h
  split at h
  · rename_i value
    exact isAlphanum_of_digitValue value
  · exact absurd h (by simp)

theorem not_isDigit_of_ends {base : Nat} {rest : List Char} (ends : Ends rest) :
    ∀ c ∈ rest.head?, isDigit base c = false := by
  intro c hc
  by_contra digit
  have alphanum := isAlphanum_of_isDigit (Bool.not_eq_false _ ▸ digit)
  exact absurd (ends c hc) (by simp [alphanum])

private theorem cut_digits {base : Nat} {digits rest : List Char}
    (all : ∀ c ∈ digits, isDigit base c = true) (ends : Ends rest) :
    (digits ++ rest).takeWhile (isDigit base) = digits ∧
      (digits ++ rest).dropWhile (isDigit base) = rest := by
  rw [List.takeWhile_append_of_pos all, List.dropWhile_append_of_pos all]
  cases rest with
  | nil => simp
  | cons c rest =>
    have stop : isDigit base c = false := not_isDigit_of_ends ends c (by simp)
    simp [stop]

private theorem read?_of_start {cs digits rest : List Char} {base n : Nat}
    (head : start cs = (base, digits ++ rest)) (all : ∀ c ∈ digits, isDigit base c = true)
    (some_digit : digits ≠ []) (value : valueOf base digits = n)
    (small : n < 0x10000000000000000) (ends : Ends rest) :
    read? cs = some (n, rest) := by
  obtain ⟨taken, dropped⟩ := cut_digits all ends
  simp [read?, head, taken, dropped, value, small, some_digit]

theorem read?_hex {n : Nat} {rest : List Char} (small : n < 0x10000000000000000)
    (ends : Ends rest) : read? ((hex n).toList ++ rest) = some (n, rest) := by
  have digits : ∀ c ∈ Nat.toDigits 16 n, isDigit 16 c = true :=
    isDigit_of_mem_toDigits (by decide) (by decide) n
  refine read?_of_start ?_ digits Nat.toDigits_ne_nil
    (valueOf_toDigits (by decide) (by decide) n) small ends
  obtain ⟨d, ds, hd⟩ := List.exists_cons_of_ne_nil (Nat.toDigits_ne_nil (n := n) (b := 16))
  have first : isDigit 16 d = true := digits d (by simp [hd])
  simp [start, hex, bareHex, hd, hexBody?, first]

private theorem start_of_head?_ne_zero {cs : List Char} (h : cs.head? ≠ some '0') :
    start cs = (10, cs) := by
  have body : hexBody? cs = none := by
    unfold hexBody?
    split
    · simp at h
    · rfl
  simp [start, body, h]

private theorem start_zero {rest : List Char} (ends : Ends rest) :
    start ('0' :: rest) = (8, '0' :: rest) := by
  have body : hexBody? ('0' :: rest) = none := by
    unfold hexBody?
    split
    · rename_i x d tail heq
      have hx : x.isAlphanum = false := ends x (by simp_all)
      have plain : x ≠ 'x' ∧ x ≠ 'X' := by
        constructor <;> rintro rfl <;> exact absurd hx (by decide)
      simp [plain]
    · rfl
  simp [start, body]

theorem read?_decimal {n : Nat} {rest : List Char} (small : n < 0x10000000000000000)
    (ends : Ends rest) : read? ((decimal n).toList ++ rest) = some (n, rest) := by
  -- Only the numeral of zero starts with a zero, and so is read in base eight.
  rcases Nat.eq_zero_or_pos n with rfl | positive
  · have digits : ∀ c ∈ ['0'], isDigit 8 c = true := by
      rw [List.forall_mem_singleton]
      decide
    refine read?_of_start ?_ digits (by simp) (by decide) small ends
    simpa [decimal] using start_zero ends
  · have digits : ∀ c ∈ Nat.toDigits 10 n, isDigit 10 c = true :=
      isDigit_of_mem_toDigits (by decide) (by decide) n
    refine read?_of_start ?_ digits Nat.toDigits_ne_nil
      (valueOf_toDigits (by decide) (by decide) n) small ends
    rw [decimal, String.toList_ofList]
    apply start_of_head?_ne_zero
    rw [List.head?_append_of_ne_nil _ Nat.toDigits_ne_nil]
    exact head?_toDigits_ne_zero (by decide) n positive

theorem read?_of_not_digit {c : Char} {cs : List Char} (other : isDigit 10 c = false) :
    read? (c :: cs) = none := by
  have zero : c ≠ '0' := by
    rintro rfl
    exact absurd other (by decide)
  have body : hexBody? (c :: cs) = none := by
    unfold hexBody?
    split
    · rename_i same
      exact absurd (List.cons.inj same).1 zero
    · rfl
  simp [read?, start, body, zero, other]

private theorem toLower_of_isDigit {c : Char} (digit : isDigit 10 c = true) : c.toLower = c := by
  unfold isDigit digitValue at digit
  split_ifs at digit with low letter capital
  · have small : ¬ ('A' ≤ c ∧ c ≤ 'Z') := by
      rintro ⟨above, -⟩
      exact absurd (Char.le_trans above low.2) (by decide)
    unfold Char.toLower
    exact dif_neg small
  · simp only [decide_eq_true_eq] at digit
    have above : 97 ≤ c.toNat := letter.1
    omega
  · simp only [decide_eq_true_eq] at digit
    have above : 65 ≤ c.toNat := capital.1
    omega

theorem read?_of_sameLetters {s : String} {letter : Char} {word : List Char}
    (same : sameLetters s (String.ofList (letter :: word)) = true)
    (other : isDigit 10 letter.toLower = false) : read? s.toList = none := by
  simp only [sameLetters, String.toList_ofList, List.map_cons, beq_iff_eq] at same
  obtain ⟨c, cs, text, first, -⟩ := List.map_eq_cons_iff.mp same
  rw [text]
  refine read?_of_not_digit ?_
  by_contra digit
  rw [Bool.not_eq_false] at digit
  rw [← first, toLower_of_isDigit digit, digit] at other
  exact absurd other (by simp)

theorem whole?_of_read? {cs : List Char} {n : Nat} (h : read? cs = some (n, [])) :
    whole? cs = some n := by
  simp [whole?, h]

theorem whole?_hex {n : Nat} (small : n < 0x10000000000000000) :
    whole? (hex n).toList = some n := by
  apply whole?_of_read?
  simpa using read?_hex small ends_nil

theorem whole?_decimal {n : Nat} (small : n < 0x10000000000000000) :
    whole? (decimal n).toList = some n := by
  apply whole?_of_read?
  simpa using read?_decimal small ends_nil

theorem bounded?_of_whole? {low high n : Nat} {cs : List Char} (h : whole? cs = some n)
    (above : low ≤ n) (below : n ≤ high) : bounded? low high cs = some n := by
  simp [bounded?, h, above, below]

theorem word32?_hex (n : UInt32) : word32? (hex n.toNat).toList = some n := by
  have small := n.toNat_lt
  have whole := whole?_hex (n := n.toNat) (by omega)
  simp [word32?, bounded?_of_whole? whole (Nat.zero_le _) (by omega : n.toNat ≤ 0xffffffff)]

end FilterRecord.Text.Numeral
