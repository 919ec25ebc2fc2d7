/- Proofs/Target/ClassHandle
   digest: Which texts are class handles, and which arguments the option that sets the class takes. -/

import FilterRecord.Proofs.Options.Conversion
import FilterRecord.Proofs.Target.Classify

set_option autoImplicit false
set_option relaxedAutoImplicit false

namespace FilterRecord.Classify

open Text
open Numeral (Run Writes)
open Options (Converts Entry Occurrence Operand Register Shows)

/-- A part of a handle and its number: digits of base sixteen, after an optional mark of the base
and then an optional plus. -/
inductive Half : List Char → Nat → Prop
  | mk {mark plus digits : List Char} {n : Nat}
    (marked : mark = [] ∨ mark = ['0', 'x'] ∨ mark = ['0', 'X']) (signed : plus = [] ∨ plus = ['+'])
    (some_digit : digits ≠ []) (run : Run 16 digits n) : Half (mark ++ (plus ++ digits)) n

/-- A class handle and its class: two parts of 16 bits, cut apart at the first colon. -/
inductive Handle (s : String) (priority : UInt32) : Prop
  | mk {major minor : List Char} {high low : Nat} (text : s.toList = major ++ ':' :: minor)
    (first : ':' ∉ major) (half_major : Half major high) (half_minor : Half minor low)
    (small_high : high ≤ 0xffff) (small_low : low ≤ 0xffff)
    (whole : priority.toNat = high * 65536 + low)

variable {s : String} {priority : UInt32} {cs : List Char} {n : Nat}

/-! ## Handles -/

private theorem exists_digits (cs : List Char) : ∃ mark plus digits,
    (mark = [] ∨ mark = ['0', 'x'] ∨ mark = ['0', 'X']) ∧ (plus = [] ∨ plus = ['+']) ∧
      cs = mark ++ (plus ++ digits) ∧ readHalf? cs =
        if digits.isEmpty || !digits.all (Numeral.isDigit 16) then none
        else if Numeral.valueOf 16 digits ≤ 0xffff then some (Numeral.valueOf 16 digits)
        else none := by
  unfold readHalf?
  split
  · rename_i rest
    dsimp only
    split
    · rename_i digits
      exact ⟨['0', 'x'], ['+'], digits, by simp, by simp, rfl, rfl⟩
    · exact ⟨['0', 'x'], [], rest, by simp, by simp, rfl, rfl⟩
  · rename_i rest
    dsimp only
    split
    · rename_i digits
      exact ⟨['0', 'X'], ['+'], digits, by simp, by simp, rfl, rfl⟩
    · exact ⟨['0', 'X'], [], rest, by simp, by simp, rfl, rfl⟩
  · dsimp only
    split
    · rename_i digits _ _
      exact ⟨[], ['+'], digits, by simp, by simp, rfl, rfl⟩
    · exact ⟨[], [], cs, by simp, by simp, rfl, rfl⟩

private theorem readHalf?_of_run {mark plus digits : List Char}
    (marked : mark = [] ∨ mark = ['0', 'x'] ∨ mark = ['0', 'X']) (signed : plus = [] ∨ plus = ['+'])
    (some_digit : digits ≠ []) (run : Run 16 digits n) (small : n ≤ 0xffff) :
    readHalf? (mark ++ (plus ++ digits)) = some n := by
  obtain ⟨all, rfl⟩ := (Numeral.run_iff (by decide)).mp run
  obtain ⟨d, rest, rfl⟩ := List.exists_cons_of_ne_nil some_digit
  have plain : d ≠ '+' := by
    rintro rfl
    exact absurd (all '+' (by simp)) (by decide)
  have every : (d :: rest).all (Numeral.isDigit 16) = true := List.all_eq_true.mpr all
  rcases marked with rfl | rfl | rfl <;> rcases signed with rfl | rfl
  · exact readHalf?_digits some_digit all small
  all_goals simp [readHalf?, plain, every, small]

theorem readHalf?_eq_some_iff : readHalf? cs = some n ↔ Half cs n ∧ n ≤ 0xffff := by
  constructor
  · intro read
    obtain ⟨mark, plus, digits, marked, signed, rfl, shape⟩ := exists_digits cs
    rw [shape] at read
    split at read
    · cases read
    · rename_i filled
      split at read
      · rename_i small
        cases read
        simp only [Bool.or_eq_true, List.isEmpty_iff, Bool.not_eq_true', not_or,
          Bool.not_eq_false] at filled
        exact ⟨.mk marked signed filled.1
          ((Numeral.run_iff (by decide)).mpr ⟨List.all_eq_true.mp filled.2, rfl⟩), small⟩
      · cases read
  · rintro ⟨⟨marked, signed, some_digit, run⟩, small⟩
    exact readHalf?_of_run marked signed some_digit run small

theorem readHandle?_eq_some_iff : readHandle? s = some priority ↔ Handle s priority := by
  constructor
  · intro read
    unfold readHandle? at read
    split at read
    · cases read
    · rename_i major minor cut
      obtain ⟨text, first⟩ := splitFirst_eq_some_iff.mp cut
      split at read
      · rename_i high low found_high found_low
        cases read
        obtain ⟨half_major, small_high⟩ := readHalf?_eq_some_iff.mp found_high
        obtain ⟨half_minor, small_low⟩ := readHalf?_eq_some_iff.mp found_low
        refine .mk text first half_major half_minor small_high small_low ?_
        exact UInt32.toNat_ofNat_of_lt' (by simp [UInt32.size]; omega)
      · cases read
  · rintro ⟨text, first, half_major, half_minor, small_high, small_low, whole⟩
    have cut := splitFirst_eq_some_iff.mpr ⟨text, first⟩
    have high := readHalf?_eq_some_iff.mpr ⟨half_major, small_high⟩
    have low := readHalf?_eq_some_iff.mpr ⟨half_minor, small_low⟩
    simp only [readHandle?, cut, high, low]
    rw [← whole, UInt32.ofNat_toNat]

private theorem no_colon {word : MaskedWord} (converts : Converts s .masked (.masked word)) :
    ':' ∉ s.toList := by
  have plain {text : List Char} {n : Nat} (writes : Writes text n) : ':' ∉ text := fun member =>
    absurd (writes.isAlphanum ':' member) (by decide)
  cases converts with
  | value n writes => exact plain writes
  | masked _ text writes_value writes_mask =>
    rw [text]
    simp [plain writes_value, plain writes_mask]

/-- No text is both a handle and a value with an optional mask. -/
theorem not_masked_of_handle {word : MaskedWord} (found : Handle s priority) :
    ¬ Converts s .masked (.masked word) := by
  intro converts
  obtain ⟨text, -, -, -, -, -, -⟩ := found
  exact no_colon converts (by simp [text])

/-! ## The option that sets the class -/

/-- The arguments of the option: handles, and from revision 1 on also a value with an optional
mask. -/
def Takes (c : Classify) (s : String) : Prop :=
  (∃ priority, Handle s priority) ∨
    c.revision = 1 ∧ ∃ word, Converts s .masked (.masked word)

private theorem stores_set (c : Classify) (priority : UInt32) :
    revisions.check "set-class" c.revision (Operation.set priority).kind = .ok () ∧
      ∃ next, c.store (.set priority) = some next := by
  cases c with
  | plain _ =>
    have supported : revisions.check "set-class" 0 .set = .ok () := by decide
    exact ⟨supported, plain priority, rfl⟩
  | masked _ => exact ⟨masked_supported _ _, masked (Operation.set priority).encode, rfl⟩

private theorem readClass_cases (c : Classify) {o : Occurrence} (argument : o.argument = some s) :
    (c.Takes s ∧ ∃ op, c.readClass o = .ok op ∧
      revisions.check "set-class" c.revision op.kind = .ok () ∧ ∃ next, c.store op = some next) ∨
    (¬ c.Takes s ∧ c.readClass o = .error (o.badValue ("Bad class value \"" ++ s ++ "\""))) := by
  have raw : o.rawArgument = s := by rw [Occurrence.rawArgument, argument, Option.getD_some]
  unfold readClass
  rw [raw]
  cases found : readHandle? s with
  | some priority =>
    exact .inl ⟨.inl ⟨priority, readHandle?_eq_some_iff.mp found⟩, .set priority, rfl,
      stores_set c priority⟩
  | none =>
    have no_handle : ¬ ∃ priority, Handle s priority := by
      rintro ⟨priority, handle⟩
      rw [readHandle?_eq_some_iff.mpr handle] at found
      cases found
    cases c with
    | plain _ =>
      refine .inr ⟨?_, rfl⟩
      rintro (handle | ⟨newer, -⟩)
      · exact no_handle handle
      · cases newer
    | masked old =>
      have newer : ¬ (masked old).revision < 1 := UInt8.lt_irrefl 1
      dsimp only
      rw [if_neg newer]
      cases value : Options.readMasked? s with
      | some word =>
        refine .inl ⟨.inr ⟨rfl, word, Options.readMasked?_eq_some_iff.mp value⟩, _, rfl,
          masked_supported _ _, _, rfl⟩
      | none =>
        refine .inr ⟨?_, rfl⟩
        rintro (handle | ⟨-, word, converts⟩)
        · exact no_handle handle
        · rw [Options.readMasked?_eq_some_iff.mpr converts] at value
          cases value

private def setClassRow : Entry :=
  ⟨"set-class", Id.setClass, .text, operationBits, false⟩

private def setting (c : Classify) (s : String) : Occurrence :=
  (Extension.classify c).grammar.written setClassRow (some s) (.text s) false

private theorem apply_setting (host : Context) (c : Classify) (s : String) :
    (c.Takes s ∧ ∃ next,
      (Extension.classify c).apply host (setting c s) = (.classify next, .ok ())) ∨
    (¬ c.Takes s ∧ (Extension.classify c).apply host (setting c s) = (.classify c,
      .error (.badValue name "set-class" ("Bad class value \"" ++ s ++ "\"")))) := by
  have stated : c.operation (setting c s) = c.readClass (setting c s) := rfl
  have argument : (setting c s).argument = some s := rfl
  rcases readClass_cases c argument with ⟨takes, op, read, supported, next, stored⟩ | ⟨refused, bad⟩
  · exact .inl ⟨takes, next, apply_operation (stated.trans read) supported stored⟩
  · refine .inr ⟨refused, ?_⟩
    rw [Extension.apply, apply, stated, bad]
    rfl

private theorem applyTokens_setting (host : Context) (c : Classify) (s : String) :
    (c.Takes s ∧ ∃ next seen, (Extension.classify c).applyTokens host ["--set-class", s] =
      (next, .ok seen)) ∨
    (¬ c.Takes s ∧ (Extension.classify c).applyTokens host ["--set-class", s] = (.classify c,
      .error (.badValue name "set-class" ("Bad class value \"" ++ s ++ "\"")))) := by
  have row : setClassRow ∈ table := by decide
  have single : (Extension.classify c).applyTokens host ["--set-class", s] = _ :=
    Extension.applyTokens_single (Extension.legible_grammar (.classify c)) row (.text s)
  rw [single]
  rcases apply_setting host c s with ⟨takes, next, applied⟩ | ⟨refused, applied⟩
  · rw [setting] at applied
    refine .inl ⟨takes, .classify next, Register.empty.add setClassRow, ?_⟩
    rw [applied]
    rfl
  · rw [setting] at applied
    exact .inr ⟨refused, by rw [applied]⟩

/-- The text of a class argument says by itself what it is. A handle is two parts at a colon and the
class of both, no handle is also a value with an optional mask, and the handle of a class reads back.
Given alone, the option takes handles and, from revision 1 on, values with an optional mask, and
nothing else: any other argument is a bad value. -/
theorem class_argument_unambiguous :
    (∀ s priority, readHandle? s = some priority ↔ Handle s priority) ∧
    (∀ s, readHandle? s = none ∨ Options.readMasked? s = none) ∧
    (∀ priority, readHandle? (handle priority) = some priority) ∧
    (∀ host c s,
      ((∃ next seen, (Extension.classify c).applyTokens host ["--set-class", s] =
          (next, .ok seen)) ↔
        (∃ priority, Handle s priority) ∨
          c.revision = 1 ∧ ∃ word, Converts s .masked (.masked word)) ∧
      ∀ e, ((Extension.classify c).applyTokens host ["--set-class", s]).2 = .error e →
        e = .badValue name "set-class" ("Bad class value \"" ++ s ++ "\"")) := by
  refine ⟨fun _ _ => readHandle?_eq_some_iff, fun s => ?_, readHandle?_handle, fun host c s => ?_⟩
  · cases handle : readHandle? s with
    | none => exact .inl rfl
    | some priority =>
      refine .inr (Option.eq_none_iff_forall_ne_some.mpr fun word masked => ?_)
      exact not_masked_of_handle (readHandle?_eq_some_iff.mp handle)
        (Options.readMasked?_eq_some_iff.mp masked)
  · rcases applyTokens_setting host c s with ⟨takes, next, seen, accepted⟩ | ⟨refused, bad⟩
    · refine ⟨iff_of_true ⟨next, seen, accepted⟩ takes, fun e error => ?_⟩
      rw [accepted] at error
      cases error
    · rw [bad]
      refine ⟨iff_of_false ?_ refused, fun e error => ?_⟩
      · rintro ⟨_, _, accepted⟩
        cases accepted
      · cases error
        rfl

end FilterRecord.Classify
