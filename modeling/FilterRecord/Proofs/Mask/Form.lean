/- Proofs/Mask/Form
   digest: The form that shows a masked word stands for an operation stored as the same word. -/

import FilterRecord.Mask.Form
import FilterRecord.Proofs.Options.Operand
import FilterRecord.Proofs.Text.Words

set_option autoImplicit false
set_option relaxedAutoImplicit false

namespace FilterRecord

open Text
open Options (Operand OperandKind Shows)

/-- The cases of the forms overlap, but each stands for the word that it is taken for. -/
theorem MaskedWord.encode_form (w : MaskedWord) : w.form.operation.encode = w := by
  obtain ⟨value, mask⟩ := w
  unfold form
  dsimp only
  split
  · rename_i zero
    simp [Form.operation, Operation.encode, zero]
  · split
    · rename_i same
      simp [Form.operation, Operation.encode, same]
    · split
      · rename_i empty
        simp [Form.operation, Operation.encode, empty]
      · split
        · rename_i full
          simp [Form.operation, Operation.encode, full]
        · rfl

namespace Form

def kind : Form → OperandKind
  | and _ | or _ | xor _ => .word32
  | set _ | setMasked _ _ => .masked

def converted : Form → Operand
  | and bits | or bits | xor bits => .word32 bits
  | set value => .masked ⟨value, MaskedWord.fullMask⟩
  | setMasked value mask => .masked ⟨value, mask⟩

theorem shows_argument (form : Form) : Shows form.kind (some form.argument) form.converted := by
  cases form with
  | and bits => exact .word32 bits
  | or bits => exact .word32 bits
  | xor bits => exact .word32 bits
  | set value => exact .value value
  | setMasked value mask => exact .masked ⟨value, mask⟩

theorem solid_argument (form : Form) : Solid form.argument := by
  cases form with
  | setMasked value mask =>
    have stroke : Unbroken "/" := by decide
    exact solid_append (solid_append (solid_hex value.toNat) stroke) (solid_hex mask.toNat).2
  | _ => exact solid_hex _

theorem option_mem (names : OptionNames) (form : Form) :
    form.option names ∈ [names.set, names.and, names.or, names.xor, names.setMasked] := by
  cases form <;> simp [option]

end Form

theorem MaskedWord.solid_ruleWords {names : OptionNames}
    (solid : ∀ n ∈ [names.set, names.and, names.or, names.xor, names.setMasked], Solid ("--" ++ n))
    (w : MaskedWord) : ∀ word ∈ w.ruleWords names "--", Solid word :=
  solid_pair (solid _ (w.form.option_mem names)) w.form.solid_argument

end FilterRecord
