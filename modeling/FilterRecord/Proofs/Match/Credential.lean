/- Proofs/Match/Credential
   digest: Which ranges of account numbers an argument gives, and what the text of a range gives. -/

import FilterRecord.Match.Credential
import FilterRecord.Proofs.Names.Accounts
import FilterRecord.Proofs.Text.NumeralGrammar
import FilterRecord.Proofs.Text.Words

set_option autoImplicit false
set_option relaxedAutoImplicit false

namespace FilterRecord.CredentialRange

open Text
open Numeral (Writes)

/-- The ends of a range are in order, and neither is the reserved number. -/
def Ordered (r : CredentialRange) : Prop :=
  r.first.toNat ≤ r.last.toNat ∧ r.last.toNat ≤ highest

variable {r : CredentialRange}

private theorem between?_eq_some_iff {first last : Nat} : between? first last = some r ↔
    first = r.first.toNat ∧ last = r.last.toNat ∧ r.Ordered := by
  constructor
  · intro made
    unfold between? at made
    split at made
    · rename_i bounds
      cases made
      simp only [Bool.and_eq_true, decide_eq_true_eq] at bounds
      obtain ⟨order, below⟩ := bounds
      have least : first ≤ 4294967294 := Nat.le_trans order below
      have most : last ≤ 4294967294 := below
      simp only [Ordered, UInt32.toNat_ofNat', highest]
      omega
    · exact absurd made (by simp)
  · rintro ⟨rfl, rfl, ordered⟩
    simp [between?, ordered.1, ordered.2]

private theorem read?_numbers_eq (r : CredentialRange) :
    read? r.numbers = between? r.first.toNat r.last.toNat := by
  have first_small := r.first.toNat_lt
  have last_small := r.last.toNat_lt
  unfold numbers
  split
  · rename_i same
    have number := Numeral.read?_decimal (n := r.first.toNat) (by omega) Numeral.ends_nil
    rw [List.append_nil] at number
    simp [read?, number, ← same]
  · have ends : Numeral.Ends ('-' :: (Numeral.decimal r.last.toNat).toList) := by
      simp [Numeral.Ends]
    have first := Numeral.read?_decimal (n := r.first.toNat) (by omega) ends
    have last := Numeral.read?_decimal (n := r.last.toNat) (by omega) Numeral.ends_nil
    rw [List.append_nil] at last
    simp [read?, first, last]

theorem read?_numbers (ordered : r.Ordered) : read? r.numbers = some r := by
  rw [read?_numbers_eq]
  exact between?_eq_some_iff.mpr ⟨rfl, rfl, ordered⟩

theorem ordered_of_numbers {other : CredentialRange} (read : read? r.numbers = some other) :
    r.Ordered := by
  rw [read?_numbers_eq] at read
  obtain ⟨first, last, ordered⟩ := between?_eq_some_iff.mp read
  rwa [Ordered, first, last]

theorem solid_numbers : Solid r.numbers := by
  have hyphen : Unbroken "-" := by decide
  unfold numbers
  split
  · exact solid_decimal _
  · exact solid_append (solid_append (solid_decimal _) hyphen) (solid_decimal _).2

/-- Without account names, only numbers are understood and shown. -/
theorem ofArgument?_nil (s : String) : ofArgument? [] s = read? s := rfl

theorem display_nil (r : CredentialRange) : r.display [] = r.numbers := by
  simp [display, AccountTable.nameOf?]

/-! Ranges that texts spell. -/

/-- What a text says of a range: a numeral says both ends, and two that a hyphen or a colon joins
say one each. -/
inductive Spells (s : String) : CredentialRange → Prop
  | single (id : UInt32) (writes : Writes s.toList id.toNat) : Spells s ⟨id, id⟩
  | joined {first last : List Char} {joint : Char} (r : CredentialRange)
    (join : joint = '-' ∨ joint = ':') (text : s.toList = first ++ joint :: last)
    (writes_first : Writes first r.first.toNat) (writes_last : Writes last r.last.toNat) :
    Spells s r

theorem read?_eq_some_iff {s : String} : read? s = some r ↔ Spells s r ∧ r.Ordered := by
  constructor
  · intro read
    unfold read? at read
    split at read
    · exact absurd read (by simp)
    · rename_i number found
      obtain ⟨rfl, same, ordered⟩ := between?_eq_some_iff.mp read
      obtain ⟨⟨numeral, text, writes, -⟩, -⟩ := Numeral.read?_eq_some_iff.mp found
      rw [List.append_nil] at text
      obtain ⟨first, last⟩ := r
      cases UInt32.toNat_inj.mp same
      exact ⟨.single first (text ▸ writes), ordered⟩
    · rename_i first joint tail found
      obtain ⟨⟨numeral, text, writes, -⟩, -⟩ := Numeral.read?_eq_some_iff.mp found
      split at read
      · rename_i join
        split at read
        · rename_i last found_last
          obtain ⟨rfl, rfl, ordered⟩ := between?_eq_some_iff.mp read
          obtain ⟨⟨other, rest, writes_last, -⟩, -⟩ := Numeral.read?_eq_some_iff.mp found_last
          rw [List.append_nil] at rest
          have joint_or : joint = '-' ∨ joint = ':' := by simpa using join
          exact ⟨.joined r joint_or text writes (rest ▸ writes_last), ordered⟩
        · exact absurd read (by simp)
      · exact absurd read (by simp)
  · rintro ⟨spells, ordered⟩
    have first_small := r.first.toNat_lt
    have last_small := r.last.toNat_lt
    have whole {text : List Char} {n : Nat} (writes : Writes text n) (small : n < 0x100000000) :
        Numeral.read? text = some (n, []) := by
      simpa using Numeral.read?_append writes (by omega) Numeral.ends_nil
    unfold read?
    cases spells with
    | single id writes =>
      simp only [whole writes first_small]
      exact between?_eq_some_iff.mpr ⟨rfl, rfl, ordered⟩
    | @joined first last joint r join text writes_first writes_last =>
      have ends : Numeral.Ends (joint :: last) := by
        rcases join with rfl | rfl <;> simp [Numeral.Ends]
      have read := Numeral.read?_append writes_first (by omega) ends
      have joins : (joint = '-' || joint = ':') = true := by simpa using join
      simp only [text, read, whole writes_last last_small, joins, if_true]
      exact between?_eq_some_iff.mpr ⟨rfl, rfl, ordered⟩

theorem ordered_read? {s : String} (read : read? s = some r) : r.Ordered :=
  (read?_eq_some_iff.mp read).2

/-- A text gives a range exactly where it spells one whose ends are in order and not reserved, and
then this one. A range is shown by its ends, or by its one end, and the text gives the range back
exactly where it is such a one. -/
theorem ranges_read_exactly :
    (∀ s r, read? s = some r ↔ Spells s r ∧ r.Ordered) ∧
    (∀ r : CredentialRange,
      r.display [] = (if r.first = r.last then Numeral.decimal r.first.toNat
        else Numeral.decimal r.first.toNat ++ "-" ++ Numeral.decimal r.last.toNat) ∧
      (read? (r.display []) = some r ↔ r.Ordered)) := by
  refine ⟨fun _ _ => read?_eq_some_iff, fun r => ?_⟩
  rw [display_nil]
  exact ⟨rfl, ordered_of_numbers, read?_numbers⟩

/-! Ranges that arguments give. -/

/-- The number that no account may have. -/
def reserved : UInt32 := 4294967295

variable {accounts : AccountTable} {s : String}

theorem ofArgument?_cases (made : ofArgument? accounts s = some r) :
    (∃ id, accounts.idOf? s = some id ∧ r = ⟨id, id⟩) ∨ accounts.idOf? s = none ∧ r.Ordered := by
  unfold ofArgument? at made
  split at made
  · rename_i id found
    cases made
    exact .inl ⟨id, found, rfl⟩
  · rename_i unnamed
    exact .inr ⟨unnamed, ordered_read? made⟩

private theorem ordered_single_iff {id : UInt32} : Ordered ⟨id, id⟩ ↔ id ≠ reserved := by
  have small := id.toNat_lt
  simp only [Ordered, highest, reserved, Nat.le_refl, true_and, ne_eq, ← UInt32.toNat_inj,
    UInt32.reduceToNat]
  omega

/-- Only the name of an account with the reserved number gives a range that is not in order, and
even this one does not end before it starts. -/
theorem ordered_iff_of_argument (made : ofArgument? accounts s = some r) :
    r.first ≤ r.last ∧ (r.Ordered ↔ accounts.idOf? s ≠ some reserved) := by
  rcases ofArgument?_cases made with ⟨id, named, rfl⟩ | ⟨unnamed, ordered⟩
  · refine ⟨UInt32.le_refl id, ?_⟩
    rw [ordered_single_iff, named, ne_eq, ne_eq, Option.some.injEq]
  · refine ⟨UInt32.le_iff_toNat_le.mpr ordered.1, ?_⟩
    simp [ordered, unnamed]

private theorem display_numbers
    (unnamed : r.first = r.last → accounts.nameOf? r.first = none) :
    r.display accounts = r.numbers := by
  unfold display
  split
  · rename_i single
    rw [unnamed single, Option.getD_none]
  · rfl

private theorem read?_display (made : ofArgument? accounts s = some r)
    (unnamed : accounts.idOf? (r.display accounts) = none) :
    read? (r.display accounts) = some r := by
  have plain (single : r.first = r.last) : accounts.nameOf? r.first = none := by
    by_contra named
    obtain ⟨name, found⟩ := Option.ne_none_iff_exists'.mp named
    have shown : r.display accounts = name := by
      rw [display, if_pos single, found, Option.getD_some]
    rw [shown] at unnamed
    exact AccountTable.idOf?_ne_none (AccountTable.mem_of_nameOf? found) unnamed
  rw [display_numbers plain]
  rcases ofArgument?_cases made with ⟨id, named, rfl⟩ | ⟨-, ordered⟩
  · exact absurd (plain rfl) (AccountTable.nameOf?_ne_none (AccountTable.mem_of_idOf? named))
  · exact read?_numbers ordered

/-- The text of a range that an argument gave is an argument too. It gives the same range exactly
when no other account is called by this text. -/
theorem display_again (made : ofArgument? accounts s = some r) :
    ∃ again, ofArgument? accounts (r.display accounts) = some again ∧
      (again = r ↔ ∀ id, accounts.idOf? (r.display accounts) = some id → r = ⟨id, id⟩) := by
  cases named : accounts.idOf? (r.display accounts) with
  | some id =>
    refine ⟨⟨id, id⟩, by simp only [ofArgument?, named], ?_⟩
    simp [eq_comm]
  | none =>
    refine ⟨r, by simp only [ofArgument?, named, read?_display made named], ?_⟩
    simp

end FilterRecord.CredentialRange
