/- Proofs/Target/Mark
   digest: The words that save a MARK record lead a fresh rule to the same record. -/

import FilterRecord.Proofs.Arguments.Writing
import FilterRecord.Proofs.Mask.Form

set_option autoImplicit false
set_option relaxedAutoImplicit false

namespace FilterRecord.Mark

open Text
open Options (Entry Occurrence Operand Register Shows)

/-- A record whose number fits a mark and, where it has a mode, whose mode is one of three. -/
def Storable : Mark → Prop
  | plain mark => mark ≤ 0xffffffff
  | moded mark mode => mark ≤ 0xffffffff ∧ mode ≤ 2
  | masked _ => True

private theorem toUInt64_le (word : UInt32) : word.toUInt64 ≤ 0xffffffff := by
  have small := word.toNat_lt
  rw [UInt64.le_iff_toNat_le, UInt32.toNat_toUInt64]
  exact Nat.le_of_lt_succ small

private theorem storable_store {m next : Mark} {op : Operation} (stored : m.store op = some next) :
    next.Storable := by
  unfold store at stored
  split at stored
  · cases stored
    exact toUInt64_le _
  · cases stored
    exact ⟨toUInt64_le _, by decide⟩
  · cases stored
    exact ⟨toUInt64_le _, by decide⟩
  · cases stored
    exact ⟨toUInt64_le _, by decide⟩
  · cases stored
    trivial
  · cases stored

theorem storable_create (revision : UInt8) : (create revision).Storable := by
  unfold create
  split
  · exact (by decide : (0 : UInt64) ≤ 0xffffffff)
  · exact ⟨by decide, by decide⟩
  · trivial

theorem storable_apply {m next : Mark} {o : Occurrence} (ok : m.apply o = .ok next) :
    next.Storable := by
  unfold apply at ok
  split at ok
  · cases ok
  · split at ok
    · cases ok
    · split at ok
      · rename_i stored
        cases ok
        exact storable_store stored
      · cases ok

private theorem exists_word32 {mark : UInt64} (fits : mark ≤ 0xffffffff) :
    ∃ word : UInt32, mark = word.toUInt64 ∧ mark.toNat = word.toNat := by
  have small : mark.toNat ≤ 0xffffffff := UInt64.le_iff_toNat_le.mp fits
  have value : mark.toUInt32.toNat = mark.toNat := by
    rw [UInt64.toNat_toUInt32]
    omega
  refine ⟨mark.toUInt32, ?_, value.symm⟩
  rw [← UInt64.toNat_inj, UInt32.toNat_toUInt64, value]

private theorem apply_operation {host : Context} {m next : Mark} {o : Occurrence} {op : Operation}
    (stated : operation? o.entry.id o.operand = some op)
    (supported : revisions.check o.entry.name m.revision op.kind = .ok ())
    (stored : m.store op = some next) :
    (Extension.mark m).apply host o = (.mark next, .ok ()) := by
  have applied : m.apply o = .ok next := by
    simp only [apply, stated, supported, stored]
  simp [Extension.apply, applied, Options.commit, Except.map]

private theorem restored_by_row (host : Context) {m next : Mark} {e : Entry} {argument : String}
    {operand : Operand} {op : Operation} (row : e ∈ table)
    (shows : Shows e.kind (some argument) operand) (stated : operation? e.id operand = some op)
    (supported : revisions.check e.name m.revision op.kind = .ok ())
    (stored : m.store op = some next) (states : e.bit &&& operationBits ≠ 0) :
    (Extension.mark m).applyTokens host ["--" ++ e.name, argument] =
      (.mark next, .ok (Register.empty.add e)) := by
  refine Extension.applyTokens_option (Extension.legible_grammar _) row shows
    (apply_operation stated supported stored) ?_
  simp [Extension.finalCheck, finalCheck, Register.intersects, Register.add, Register.empty, states]

private theorem exists_row (form : Form) : ∃ e ∈ table, e.name = form.option optionNames ∧
    e.kind = form.kind ∧ operation? e.id form.converted = some form.operation ∧
    e.bit &&& operationBits ≠ 0 := by
  cases form with
  | and bits =>
    exact ⟨⟨"and-mark", Id.andMark, .word32, operationBits, false⟩, by decide, rfl, rfl, rfl,
      by decide⟩
  | or bits =>
    exact ⟨⟨"or-mark", Id.orMark, .word32, operationBits, false⟩, by decide, rfl, rfl, rfl,
      by decide⟩
  | xor bits =>
    exact ⟨⟨"xor-mark", Id.xorMark, .word32, operationBits, false⟩, by decide, rfl, rfl, rfl,
      by decide⟩
  | set value =>
    exact ⟨⟨"set-mark", Id.setMark, .masked, operationBits, false⟩, by decide, rfl, rfl, rfl,
      by decide⟩
  | setMasked value mask =>
    exact ⟨⟨"set-xmark", Id.setXMark, .masked, operationBits, false⟩, by decide, rfl, rfl, rfl,
      by decide⟩

private theorem masked_supported (option : String) (kind : Operation.Kind) :
    revisions.check option 2 kind = .ok () := by
  cases kind <;> rfl

private theorem restored_masked (host : Context) (word : MaskedWord) :
    ∃ seen, (Extension.mark (masked .zero)).applyTokens host (word.ruleWords optionNames "--") =
      (.mark (masked word), .ok seen) := by
  obtain ⟨e, row, name, kind, stated, states⟩ := exists_row word.form
  have shows : Shows e.kind (some word.form.argument) word.form.converted := by
    rw [kind]
    exact word.form.shows_argument
  have supported : revisions.check e.name (masked .zero).revision word.form.operation.kind =
      .ok () := masked_supported _ _
  have stored : (masked .zero).store word.form.operation = some (masked word) := by
    simp [store, word.encode_form]
  have done := restored_by_row host row shows stated supported stored states
  rw [name] at done
  exact ⟨_, done⟩

private theorem restored_replaced (host : Context) {m next : Mark} {word : UInt32}
    (supported : revisions.check "set-mark" m.revision .set = .ok ())
    (stored : m.store (.set word) = some next) :
    ∃ seen, (Extension.mark m).applyTokens host ["--set-mark", Numeral.hex word.toNat] =
      (.mark next, .ok seen) :=
  ⟨_, restored_by_row host (e := ⟨"set-mark", Id.setMark, .masked, operationBits, false⟩)
    (by decide) (.value word) rfl supported stored (by decide)⟩

theorem restored (host : Context) {m : Mark} (storable : m.Storable) :
    ∃ seen, (Extension.mark (create m.revision)).applyTokens host m.savedWords =
      (.mark m, .ok seen) := by
  have replaced : revisions.check "set-mark" 0 .set = .ok () := by decide
  have replaced' : revisions.check "set-mark" 1 .set = .ok () := by decide
  have cleared : revisions.check "and-mark" 1 .and = .ok () := by decide
  have turned : revisions.check "or-mark" 1 .or = .ok () := by decide
  cases m with
  | plain mark =>
    obtain ⟨word, rfl, number⟩ := exists_word32 storable
    simp only [revision, create, savedWords, savedMode, modeName?, number]
    exact restored_replaced host replaced rfl
  | moded mark mode =>
    obtain ⟨fits, known⟩ := storable
    obtain ⟨word, rfl, number⟩ := exists_word32 fits
    have modes : mode = 0 ∨ mode = 1 ∨ mode = 2 := by
      simp only [UInt8.le_iff_toNat_le, ← UInt8.toNat_inj, UInt8.reduceToNat] at known ⊢
      omega
    simp only [revision, create, savedWords, savedMode, number]
    rcases modes with rfl | rfl | rfl
    · exact restored_replaced host rfl rfl
    · exact ⟨_, restored_by_row host (e := ⟨"and-mark", Id.andMark, .word32, operationBits, false⟩)
        (by decide) (.word32 word) rfl cleared rfl (by decide)⟩
    · exact ⟨_, restored_by_row host (e := ⟨"or-mark", Id.orMark, .word32, operationBits, false⟩)
        (by decide) (.word32 word) rfl turned rfl (by decide)⟩
  | masked word => exact restored_masked host word

private theorem solid_savedMode (mark : UInt64) (mode : UInt8) :
    ∀ w ∈ savedMode mark mode, Solid w := by
  have named : ∀ m, modeName? mode = some m → Solid ("--" ++ m ++ "-mark") := by
    intro m known
    unfold modeName? at known
    split at known <;> cases known <;> decide
  intro w hw
  unfold savedMode at hw
  split at hw
  · rename_i m known
    exact solid_pair (named m known) (solid_hex _) w hw
  · exact absurd hw (by simp)

theorem solid_savedWords (m : Mark) : ∀ w ∈ m.savedWords, Solid w := by
  cases m with
  | plain mark => exact solid_savedMode mark 0
  | moded mark mode => exact solid_savedMode mark mode
  | masked word => exact word.solid_ruleWords (by decide)

end FilterRecord.Mark
