/- Proofs/Target/Classify
   digest: A handle reads back as its class, and a saved CLASSIFY record as the record. -/

import FilterRecord.Proofs.Arguments.Writing
import FilterRecord.Proofs.Mask.Form

set_option autoImplicit false
set_option relaxedAutoImplicit false

namespace FilterRecord.Classify

open Text
open Options (Entry Occurrence Operand Register Shows)

theorem readHalf?_digits {cs : List Char} (some_digit : cs ≠ [])
    (digits : ∀ c ∈ cs, Numeral.isDigit 16 c = true) (small : Numeral.valueOf 16 cs ≤ 0xffff) :
    readHalf? cs = some (Numeral.valueOf 16 cs) := by
  have absent (c : Char) (other : Numeral.isDigit 16 c = false) : c ∉ cs := by
    intro member
    rw [digits c member] at other
    exact absurd other (by simp)
  have signs := And.intro (absent 'x' (by decide)) (absent 'X' (by decide))
  have plus := absent '+' (by decide)
  have all : cs.all (Numeral.isDigit 16) = true := List.all_eq_true.mpr digits
  unfold readHalf?
  split
  · simp at signs
  · simp at signs
  · dsimp only
    split
    · simp at plus
    · simp [some_digit, all, small]

private theorem readHalf?_bareHex {n : Nat} (small : n ≤ 0xffff) :
    readHalf? (Numeral.bareHex n).toList = some n := by
  have digits : ∀ c ∈ Nat.toDigits 16 n, Numeral.isDigit 16 c = true :=
    Numeral.isDigit_of_mem_toDigits (by decide) (by decide) n
  have value : Numeral.valueOf 16 (Nat.toDigits 16 n) = n :=
    Numeral.valueOf_toDigits (by decide) (by decide) n
  rw [Numeral.bareHex, String.toList_ofList,
    readHalf?_digits Nat.toDigits_ne_nil digits (by rwa [value]), value]

theorem readHandle?_handle (priority : UInt32) : readHandle? (handle priority) = some priority := by
  have small := priority.toNat_lt
  have absent : ':' ∉ (Numeral.bareHex (priority.toNat / 65536)).toList := by
    rw [Numeral.bareHex, String.toList_ofList]
    intro member
    have digit := Numeral.isDigit_of_mem_toDigits (by decide) (by decide) _ _ member
    exact absurd digit (by decide)
  have high : readHalf? (Numeral.bareHex (priority.toNat / 65536)).toList =
      some (priority.toNat / 65536) := readHalf?_bareHex (by omega)
  have low : readHalf? (Numeral.bareHex (priority.toNat % 65536)).toList =
      some (priority.toNat % 65536) := readHalf?_bareHex (by omega)
  have text : (handle priority).toList = (Numeral.bareHex (priority.toNat / 65536)).toList ++
      ':' :: (Numeral.bareHex (priority.toNat % 65536)).toList := by
    simp [handle]
  have whole : priority.toNat / 65536 * 65536 + priority.toNat % 65536 = priority.toNat :=
    Nat.div_add_mod' _ _
  simp [readHandle?, text, splitFirst_append absent, high, low, whole]

theorem solid_handle (priority : UInt32) : Solid (handle priority) := by
  have colon : Unbroken ":" := by decide
  exact solid_append (solid_append (solid_bareHex _) colon) (solid_bareHex _).2

theorem apply_operation {host : Context} {c next : Classify} {o : Occurrence}
    {op : Operation} (stated : c.operation o = .ok op)
    (supported : revisions.check o.entry.name c.revision op.kind = .ok ())
    (stored : c.store op = some next) :
    (Extension.classify c).apply host o = (.classify next, .ok ()) := by
  have applied : c.apply o = .ok next := by
    simp only [apply, stated, supported, stored]
  simp [Extension.apply, applied, Options.commit, Except.map]

private theorem restored_by_row (host : Context) {c next : Classify} {e : Entry}
    {argument : String} {operand : Operand} {op : Operation} (row : e ∈ table)
    (shows : Shows e.kind (some argument) operand)
    (stated : c.operation ((Extension.classify c).grammar.written e (some argument) operand false) =
      .ok op)
    (supported : revisions.check e.name c.revision op.kind = .ok ())
    (stored : c.store op = some next) (states : e.bit &&& operationBits ≠ 0) :
    (Extension.classify c).applyTokens host ["--" ++ e.name, argument] =
      (.classify next, .ok (Register.empty.add e)) := by
  refine Extension.applyTokens_option (Extension.legible_grammar _) row shows
    (apply_operation stated supported stored) ?_
  simp [Extension.finalCheck, finalCheck, Register.intersects, Register.add, Register.empty, states]

private theorem restored_handle (host : Context) {c next : Classify} {priority : UInt32}
    (supported : revisions.check "set-class" c.revision .set = .ok ())
    (stored : c.store (.set priority) = some next) :
    ∃ seen, (Extension.classify c).applyTokens host ["--set-class", handle priority] =
      (.classify next, .ok seen) := by
  have stated (o : Occurrence) (id : o.entry.id = Id.setClass)
      (operand : o.operand = .text (handle priority))
      (argument : o.argument = some (handle priority)) : c.operation o = .ok (.set priority) := by
    simp [operation, id, operand, readClass, Occurrence.rawArgument, argument,
      readHandle?_handle]
  exact ⟨_, restored_by_row host (e := ⟨"set-class", Id.setClass, .text, operationBits, false⟩)
    (by decide) (.text (handle priority)) (stated _ rfl rfl rfl) supported stored (by decide)⟩

theorem masked_supported (option : String) (kind : Operation.Kind) :
    revisions.check option 1 kind = .ok () := by
  cases kind <;> rfl

private theorem exists_row {form : Form} (other : ∀ value, form ≠ .set value) (c : Classify) :
    ∃ e ∈ table, e.name = form.option optionNames ∧ e.kind = form.kind ∧
      (∀ o : Occurrence, o.entry = e → o.operand = form.converted →
        c.operation o = .ok form.operation) ∧ e.bit &&& operationBits ≠ 0 := by
  cases form with
  | and bits =>
    refine ⟨⟨"and-class", Id.andClass, .word32, operationBits, false⟩, by decide, rfl, rfl, ?_,
      by decide⟩
    intro o entry operand
    simp [operation, entry, operand, Form.converted, Form.operation]
  | or bits =>
    refine ⟨⟨"or-class", Id.orClass, .word32, operationBits, false⟩, by decide, rfl, rfl, ?_,
      by decide⟩
    intro o entry operand
    simp [operation, entry, operand, Form.converted, Form.operation]
  | xor bits =>
    refine ⟨⟨"xor-class", Id.xorClass, .word32, operationBits, false⟩, by decide, rfl, rfl, ?_,
      by decide⟩
    intro o entry operand
    simp [operation, entry, operand, Form.converted, Form.operation]
  | set value => exact absurd rfl (other value)
  | setMasked value mask =>
    refine ⟨⟨"set-xclass", Id.setXClass, .masked, operationBits, false⟩, by decide, rfl, rfl, ?_,
      by decide⟩
    intro o entry operand
    simp [operation, entry, operand, Form.converted, Form.operation]

private theorem restored_masked (host : Context) {word : MaskedWord}
    (partly : word.mask ≠ MaskedWord.fullMask) :
    ∃ seen, (Extension.classify (masked .zero)).applyTokens host
      (word.ruleWords optionNames "--") = (.classify (masked word), .ok seen) := by
  have other : ∀ value, word.form ≠ .set value := by
    intro value
    unfold MaskedWord.form
    split_ifs <;> simp
  obtain ⟨e, row, name, kind, stated, states⟩ := exists_row other (masked .zero)
  have shows : Shows e.kind (some word.form.argument) word.form.converted := by
    rw [kind]
    exact word.form.shows_argument
  have supported : revisions.check e.name (masked .zero).revision word.form.operation.kind =
      .ok () := masked_supported _ _
  have stored : (masked .zero).store word.form.operation = some (masked word) := by
    simp [store, word.encode_form]
  have done := restored_by_row host row shows (stated _ rfl rfl) supported stored states
  rw [name] at done
  exact ⟨_, done⟩

theorem restored (host : Context) (c : Classify) :
    ∃ seen, (Extension.classify (create c.revision)).applyTokens host c.savedWords =
      (.classify c, .ok seen) := by
  cases c with
  | plain priority =>
    have supported : revisions.check "set-class" 0 .set = .ok () := by decide
    exact restored_handle host supported rfl
  | masked word =>
    have fresh : create (masked word).revision = masked .zero := rfl
    rw [fresh]
    by_cases full : word.mask = MaskedWord.fullMask
    · have supported : revisions.check "set-class" (masked .zero).revision .set = .ok () :=
        masked_supported _ _
      have stored : (masked .zero).store (.set word.value) = some (masked word) := by
        simp only [store, Operation.encode, ← full]
      have words : (masked word).savedWords = ["--set-class", handle word.value] := if_pos full
      rw [words]
      exact restored_handle host supported stored
    · have words : (masked word).savedWords = word.ruleWords optionNames "--" := if_neg full
      rw [words]
      exact restored_masked host full

theorem solid_savedWords (c : Classify) : ∀ w ∈ c.savedWords, Solid w := by
  have pair (priority : UInt32) : ∀ w ∈ ["--set-class", handle priority], Solid w :=
    solid_pair (by decide) (solid_handle priority)
  cases c with
  | plain priority => exact pair priority
  | masked word =>
    simp only [savedWords, ruleWords]
    split
    · exact pair word.value
    · exact word.solid_ruleWords (by decide)

end FilterRecord.Classify
