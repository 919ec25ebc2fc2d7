/- Proofs/Text/NumeralGrammar
   digest: Which texts are numerals, and that the longest one at the start of a text is read. -/

import Mathlib.Data.List.Forall2
import Mathlib.Data.List.Induction
import Mathlib.Data.Nat.Digits.Defs
import FilterRecord.Proofs.Text.Numeral

set_option autoImplicit false
set_option relaxedAutoImplicit false

namespace FilterRecord.Text.Numeral

/-- A character is the digit of a value in a base; letters count in either case. -/
def Digit (base : Nat) (c : Char) (value : Nat) : Prop :=
  value < base ∧ c.toLower = Nat.digitChar value

/-- Digits, the highest place first, and the number that they write. -/
def Run (base : Nat) (digits : List Char) (n : Nat) : Prop :=
  ∃ places, List.Forall₂ (Digit base) digits places ∧ n = Nat.ofDigits base places.reverse

/-- The texts that are numerals, and the number that each writes. -/
inductive Writes : List Char → Nat → Prop
  /-- Base sixteen is marked by 0x or 0X. -/
  | hex {x : Char} {digits : List Char} {n : Nat} (sign : x = 'x' ∨ x = 'X')
    (some_digit : digits ≠ []) (run : Run 16 digits n) : Writes ('0' :: x :: digits) n
  /-- Base eight is marked by a zero, which is a digit too. -/
  | octal {digits : List Char} {n : Nat} (run : Run 8 ('0' :: digits) n) :
    Writes ('0' :: digits) n
  | decimal {c : Char} {digits : List Char} {n : Nat} (plain : c ≠ '0')
    (run : Run 10 (c :: digits) n) : Writes (c :: digits) n

/-- No numeral at the start of a text has more characters than this one. -/
def Longest (numeral text : List Char) : Prop :=
  ∀ other m, other <+: text → Writes other m → other.length ≤ numeral.length

variable {base n m : Nat} {c : Char} {cs numeral rest : List Char}

/-! ## Digits -/

private theorem eq_ofNat_of_range {first last : Char} (above : first ≤ c) (below : c ≤ last) :
    ∃ place ≤ last.toNat - first.toNat, c = Char.ofNat (first.toNat + place) := by
  have low : first.toNat ≤ c.toNat := above
  have high : c.toNat ≤ last.toNat := below
  refine ⟨c.toNat - first.toNat, by omega, ?_⟩
  rw [Nat.add_sub_cancel' low, Char.ofNat_toNat]

private theorem digitValue_capital : ∀ place ≤ 'Z'.toNat - 'A'.toNat, ∀ d < 16,
    (Char.ofNat ('A'.toNat + place)).toLower = Nat.digitChar d →
      digitValue (Char.ofNat ('A'.toNat + place)) = some d := by
  decide +kernel

theorem digitValue_eq_some_iff {d : Nat} :
    digitValue c = some d ↔ d < 16 ∧ c.toLower = Nat.digitChar d := by
  constructor
  · intro value
    unfold digitValue at value
    split_ifs at value with digit letter capital
    · obtain ⟨place, near, rfl⟩ := eq_ofNat_of_range digit.1 digit.2
      cases value
      clear digit
      revert place
      decide
    · obtain ⟨place, near, rfl⟩ := eq_ofNat_of_range letter.1 letter.2
      cases value
      clear digit letter
      revert place
      decide
    · obtain ⟨place, near, rfl⟩ := eq_ofNat_of_range capital.1 capital.2
      cases value
      clear digit letter capital
      revert place
      decide
  · rintro ⟨small, lower⟩
    by_cases capital : 'A' ≤ c ∧ c ≤ 'Z'
    · obtain ⟨place, near, rfl⟩ := eq_ofNat_of_range capital.1 capital.2
      exact digitValue_capital place near d small lower
    · have same : c.toLower = c := by
        unfold Char.toLower
        exact dif_neg capital
      rw [← same, lower]
      exact digitValue_digitChar d small

theorem digit_iff {value : Nat} (small : base ≤ 16) :
    Digit base c value ↔ isDigit base c = true ∧ value = (digitValue c).getD 0 := by
  have found := digitValue_eq_some_iff (c := c) (d := value)
  constructor
  · rintro ⟨below, lower⟩
    have known := found.mpr ⟨by omega, lower⟩
    simp [isDigit, known, below]
  · rintro ⟨digit, rfl⟩
    unfold isDigit at digit
    split at digit
    · rename_i d known
      rw [known, Option.getD_some]
      exact ⟨of_decide_eq_true digit, (digitValue_eq_some_iff.mp known).2⟩
    · exact absurd digit (by simp)

theorem valueOf_eq_ofDigits (base : Nat) (digits : List Char) :
    valueOf base digits =
      Nat.ofDigits base (digits.map fun c => (digitValue c).getD 0).reverse := by
  induction digits using List.reverseRecOn with
  | nil => rfl
  | append_singleton digits c ih =>
    have step : valueOf base (digits ++ [c]) =
        valueOf base digits * base + (digitValue c).getD 0 := by
      simp only [valueOf, List.foldl_append, List.foldl_cons, List.foldl_nil]
    rw [step, ih, List.map_append, List.reverse_append, List.map_singleton, List.reverse_singleton,
      List.singleton_append, Nat.ofDigits_cons, Nat.mul_comm, Nat.add_comm]

theorem run_iff (small : base ≤ 16) :
    Run base cs n ↔ (∀ c ∈ cs, isDigit base c = true) ∧ n = valueOf base cs := by
  have places_iff (places : List Nat) : List.Forall₂ (Digit base) cs places ↔
      (∀ c ∈ cs, isDigit base c = true) ∧ places = cs.map fun c => (digitValue c).getD 0 := by
    induction cs generalizing places with
    | nil => simp
    | cons c cs ih =>
      cases places with
      | nil => simp
      | cons value places =>
        rw [List.forall₂_cons, ih, digit_iff small, List.forall_mem_cons, List.map_cons,
          List.cons.injEq]
        tauto
  rw [valueOf_eq_ofDigits]
  constructor
  · rintro ⟨places, all, rfl⟩
    obtain ⟨digits, rfl⟩ := (places_iff places).mp all
    exact ⟨digits, rfl⟩
  · rintro ⟨digits, rfl⟩
    exact ⟨_, (places_iff _).mpr ⟨digits, rfl⟩, rfl⟩

private theorem Run.digits (small : base ≤ 16) (run : Run base cs n) :
    ∀ c ∈ cs, isDigit base c = true :=
  ((run_iff small).mp run).1

private theorem Run.unique (small : base ≤ 16) (first : Run base cs n) (second : Run base cs m) :
    n = m := by
  rw [((run_iff small).mp first).2, ((run_iff small).mp second).2]

/-! ## The longest numeral -/

theorem Writes.ne_nil (writes : Writes cs n) : cs ≠ [] := by
  cases writes <;> simp

private theorem sign_not_octal {x : Char} (sign : x = 'x' ∨ x = 'X')
    (digit : isDigit 8 x = true) : False := by
  rcases sign with rfl | rfl <;> exact absurd digit (by decide)

/-- A numeral writes one number. -/
theorem Writes.unique (first : Writes cs n) (second : Writes cs m) : n = m := by
  cases first with
  | hex sign _ run =>
    cases second with
    | hex _ _ other => exact run.unique (by decide) other
    | octal other => exact (sign_not_octal sign (other.digits (by decide) _ (by simp))).elim
    | decimal plain _ => exact absurd rfl plain
  | octal run =>
    cases second with
    | hex sign _ _ => exact (sign_not_octal sign (run.digits (by decide) _ (by simp))).elim
    | octal other => exact run.unique (by decide) other
    | decimal plain _ => exact absurd rfl plain
  | decimal plain run =>
    cases second with
    | hex _ _ _ => exact absurd rfl plain
    | octal _ => exact absurd rfl plain
    | decimal _ other => exact run.unique (by decide) other

private inductive Start (cs : List Char) : Prop
  | hex (x d : Char) (digits : List Char) (sign : x = 'x' ∨ x = 'X')
    (digit : isDigit 16 d = true) (shape : cs = '0' :: x :: d :: digits)
    (base : start cs = (16, d :: digits))
  | octal (digits : List Char) (unmarked : hexBody? cs = none) (shape : cs = '0' :: digits)
    (base : start cs = (8, cs))
  | decimal (plain : cs.head? ≠ some '0') (base : start cs = (10, cs))

private theorem hexBody?_eq_some {body : List Char} (marked : hexBody? cs = some body) :
    ∃ x d digits, (x = 'x' ∨ x = 'X') ∧ isDigit 16 d = true ∧ cs = '0' :: x :: d :: digits ∧
      body = d :: digits := by
  unfold hexBody? at marked
  split at marked
  · rename_i x d digits
    split at marked
    · rename_i sign
      cases marked
      simp only [Bool.and_eq_true, Bool.or_eq_true, beq_iff_eq] at sign
      exact ⟨x, d, digits, sign.1, sign.2, rfl, rfl⟩
    · cases marked
  · cases marked

private theorem start_shape (cs : List Char) : Start cs := by
  cases marked : hexBody? cs with
  | some body =>
    obtain ⟨x, d, digits, sign, digit, shape, rfl⟩ := hexBody?_eq_some marked
    exact .hex x d digits sign digit shape (by simp [start, marked])
  | none =>
    by_cases zero : cs.head? = some '0'
    · obtain ⟨digits, shape⟩ := List.head?_eq_some_iff.mp zero
      exact .octal digits marked shape (by simp [start, marked, zero])
    · exact .decimal zero (by simp [start, marked, zero])

private theorem length_le_takeWhile {digits : List Char} (before : digits <+: cs)
    (all : ∀ c ∈ digits, isDigit base c = true) :
    digits.length ≤ (cs.takeWhile (isDigit base)).length := by
  obtain ⟨rest, rfl⟩ := before
  rw [List.takeWhile_append_of_pos all, List.length_append]
  exact Nat.le_add_right _ _

private theorem longest_hex {x d : Char} {digits : List Char} (sign : x = 'x' ∨ x = 'X') :
    Longest ('0' :: x :: (d :: digits).takeWhile (isDigit 16)) ('0' :: x :: d :: digits) := by
  intro other m before writes
  cases writes with
  | hex _ _ run =>
    have tail := (List.cons_prefix_cons.mp (List.cons_prefix_cons.mp before).2).2
    have most := length_le_takeWhile tail (run.digits (by decide))
    simpa using most
  | @octal octals _ run =>
    cases octals with
    | nil => simp
    | cons y octals =>
      have same : y = x := (List.cons_prefix_cons.mp (List.cons_prefix_cons.mp before).2).1
      exact (sign_not_octal sign (run.digits (by decide) x (by simp [same]))).elim
  | decimal plain _ => exact absurd (List.cons_prefix_cons.mp before).1 plain

private theorem longest_octal {digits : List Char} (unmarked : hexBody? ('0' :: digits) = none) :
    Longest (('0' :: digits).takeWhile (isDigit 8)) ('0' :: digits) := by
  intro other m before writes
  cases writes with
  | @hex x marked _ sign some_digit run =>
    obtain ⟨rest, whole⟩ := before
    obtain ⟨d, marked, rfl⟩ := List.exists_cons_of_ne_nil some_digit
    have digit : isDigit 16 d = true := run.digits (by decide) d (by simp)
    rw [← whole] at unmarked
    rcases sign with rfl | rfl <;> simp [hexBody?, digit] at unmarked
  | octal run => exact length_le_takeWhile before (run.digits (by decide))
  | decimal plain _ => exact absurd (List.cons_prefix_cons.mp before).1 plain

private theorem longest_decimal (plain : cs.head? ≠ some '0') :
    Longest (cs.takeWhile (isDigit 10)) cs := by
  intro other m before writes
  cases writes with
  | hex _ _ _ =>
    obtain ⟨rest, rfl⟩ := before
    exact absurd rfl plain
  | octal _ =>
    obtain ⟨rest, rfl⟩ := before
    exact absurd rfl plain
  | decimal _ run => exact length_le_takeWhile before (run.digits (by decide))

private theorem run_takeWhile (small : base ≤ 16) (cs : List Char) :
    Run base (cs.takeWhile (isDigit base)) (valueOf base (cs.takeWhile (isDigit base))) :=
  (run_iff small).mpr ⟨fun _ => List.mem_takeWhile_imp, rfl⟩

private theorem exists_longest (cs : List Char) :
    ∃ numeral, cs = numeral ++ (start cs).2.dropWhile (isDigit (start cs).1) ∧
      Longest numeral cs ∧
      let digits := (start cs).2.takeWhile (isDigit (start cs).1)
      if digits = [] then numeral = [] else Writes numeral (valueOf (start cs).1 digits) := by
  cases start_shape cs with
  | hex x d digits sign digit shape base =>
    have filled : (d :: digits).takeWhile (isDigit 16) ≠ [] := by simp [digit]
    refine ⟨'0' :: x :: (d :: digits).takeWhile (isDigit 16), ?_, ?_, ?_⟩
    · rw [base, List.cons_append, List.cons_append, List.takeWhile_append_dropWhile, shape]
    · rw [shape]
      exact longest_hex sign
    · rw [base, if_neg filled]
      exact .hex sign filled (run_takeWhile (by decide) _)
  | octal digits unmarked shape base =>
    subst shape
    refine ⟨('0' :: digits).takeWhile (isDigit 8), ?_, longest_octal unmarked, ?_⟩
    · rw [base, List.takeWhile_append_dropWhile]
    · have run : Run 8 _ _ := run_takeWhile (by decide) ('0' :: digits)
      rw [List.takeWhile_cons_of_pos (by decide)] at run
      rw [base]
      dsimp only
      rw [List.takeWhile_cons_of_pos (by decide), if_neg (by simp)]
      exact .octal run
  | decimal plain base =>
    refine ⟨cs.takeWhile (isDigit 10), ?_, longest_decimal plain, ?_⟩
    · rw [base, List.takeWhile_append_dropWhile]
    · have run : Run 10 _ _ := run_takeWhile (by decide) cs
      rw [base]
      cases cs with
      | nil => rfl
      | cons c cs =>
        by_cases digit : isDigit 10 c = true
        · have other : c ≠ '0' := by simpa using plain
          rw [List.takeWhile_cons_of_pos digit] at run ⊢
          rw [if_neg (by simp)]
          exact .decimal other run
        · rw [List.takeWhile_cons_of_neg digit, if_pos rfl]

private theorem Longest.unique {other left : List Char} (text : numeral ++ rest = other ++ left)
    (longest : Longest numeral (numeral ++ rest)) (writes : Writes numeral n)
    (longest_other : Longest other (other ++ left)) (writes_other : Writes other m) :
    rest = left ∧ n = m := by
  have most := longest other m ⟨left, text.symm⟩ writes_other
  have least := longest_other numeral n ⟨rest, text⟩ writes
  obtain ⟨rfl, same⟩ := List.append_inj text (Nat.le_antisymm least most)
  exact ⟨same, writes.unique writes_other⟩

/-- The longest numeral at the start of a text is read, if its number has no more than 64 bits; the
rest of the text is what is left. -/
theorem read?_eq_some_iff : read? cs = some (n, rest) ↔
    (∃ numeral, cs = numeral ++ rest ∧ Writes numeral n ∧ Longest numeral cs) ∧
      n < 0x10000000000000000 := by
  obtain ⟨numeral, text, longest, read⟩ := exists_longest cs
  unfold read?
  dsimp only at read ⊢
  split at read
  · rename_i no_digit
    rw [no_digit, List.isEmpty_nil, if_pos rfl]
    refine iff_of_false (by simp) ?_
    rintro ⟨⟨other, shape, writes, -⟩, -⟩
    have short := longest other n ⟨rest, shape.symm⟩ writes
    rw [read, List.length_nil, Nat.le_zero, List.length_eq_zero_iff] at short
    exact writes.ne_nil short
  · rename_i some_digit
    rw [List.isEmpty_eq_false_iff.mpr some_digit, if_neg (by simp), Option.ite_none_right_eq_some,
      Option.some.injEq, Prod.mk.injEq]
    constructor
    · rintro ⟨small, rfl, rfl⟩
      exact ⟨⟨numeral, text, read, longest⟩, small⟩
    · rintro ⟨⟨other, shape, writes, longest_other⟩, small⟩
      rw [text] at longest
      rw [shape] at longest_other
      obtain ⟨same_rest, same⟩ := longest.unique (text.symm.trans shape) read longest_other writes
      exact ⟨same ▸ small, same, same_rest⟩

example : read? "0x/1".toList = some (0, "x/1".toList) := by decide

/-! ## Texts that are numerals -/

theorem Writes.isAlphanum (writes : Writes cs n) : ∀ c ∈ cs, c.isAlphanum = true := by
  have zero : ('0').isAlphanum = true := by decide
  cases writes with
  | hex sign _ run =>
    have mark : ∀ x, x = 'x' ∨ x = 'X' → x.isAlphanum = true := by
      rintro x (rfl | rfl) <;> decide
    intro c member
    rcases List.mem_cons.mp member with rfl | member
    · exact zero
    · rcases List.mem_cons.mp member with rfl | member
      · exact mark c sign
      · exact isAlphanum_of_isDigit (run.digits (by decide) c member)
  | octal run => exact fun c member => isAlphanum_of_isDigit (run.digits (by decide) c member)
  | decimal _ run => exact fun c member => isAlphanum_of_isDigit (run.digits (by decide) c member)

theorem read?_append (writes : Writes numeral n) (small : n < 0x10000000000000000)
    (ends : Ends rest) : read? (numeral ++ rest) = some (n, rest) := by
  refine read?_eq_some_iff.mpr ⟨⟨numeral, rfl, writes, ?_⟩, small⟩
  intro other m before longer
  by_contra more
  rw [Nat.not_le] at more
  obtain ⟨left, text⟩ := before
  obtain ⟨beyond, rfl⟩ : numeral <+: other := List.prefix_of_prefix_length_le
    (List.prefix_append numeral rest) ⟨left, text⟩ (Nat.le_of_lt more)
  rw [List.append_assoc, List.append_cancel_left_eq] at text
  cases beyond with
  | nil => simp at more
  | cons c beyond =>
    have plain : c.isAlphanum = false := ends c (by simp [← text])
    have alphanum : c.isAlphanum = true := longer.isAlphanum c (by simp)
    exact absurd (plain.symm.trans alphanum) (by decide)

theorem whole?_eq_some_iff : whole? cs = some n ↔ Writes cs n ∧ n < 0x10000000000000000 := by
  constructor
  · intro whole
    unfold whole? at whole
    split at whole
    · rename_i read
      cases whole
      obtain ⟨⟨numeral, text, writes, -⟩, small⟩ := read?_eq_some_iff.mp read
      rw [List.append_nil] at text
      exact ⟨text ▸ writes, small⟩
    · cases whole
  · rintro ⟨writes, small⟩
    refine whole?_of_read? ?_
    simpa using read?_append writes small ends_nil

theorem bounded?_eq_some_iff {low high : Nat} : bounded? low high cs = some n ↔
    Writes cs n ∧ n < 0x10000000000000000 ∧ low ≤ n ∧ n ≤ high := by
  rw [bounded?, Option.filter_eq_some_iff, whole?_eq_some_iff]
  simp [and_assoc]

theorem word32?_eq_some_iff {w : UInt32} : word32? cs = some w ↔ Writes cs w.toNat := by
  have fits := w.toNat_lt
  rw [word32?, Option.map_eq_some_iff]
  constructor
  · rintro ⟨n, read, rfl⟩
    obtain ⟨writes, -, -, small⟩ := bounded?_eq_some_iff.mp read
    rwa [UInt32.toNat_ofNat_of_lt' (by simp [UInt32.size]; omega)]
  · intro writes
    exact ⟨w.toNat, bounded?_eq_some_iff.mpr ⟨writes, by omega, Nat.zero_le _, by omega⟩,
      UInt32.ofNat_toNat⟩

end FilterRecord.Text.Numeral
