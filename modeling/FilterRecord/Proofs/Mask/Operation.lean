/- Proofs/Mask/Operation
   digest: A masked word does what its operation says, and no other word does the same. -/

import FilterRecord.Proofs.Mask.Bits
import FilterRecord.Proofs.Mask.Form

set_option autoImplicit false
set_option relaxedAutoImplicit false

namespace FilterRecord

namespace MaskedWord

theorem isWithin_iff {w : MaskedWord} : w.isWithin = true ↔ w.value &&& w.mask = w.value := by
  simp [isWithin, within_iff]

theorem apply_of_isWithin {w : MaskedWord} (within : w.isWithin = true) (old : UInt32) :
    w.apply old = (old &&& ~~~w.mask) ||| (w.value &&& w.mask) := by
  have inside := isWithin_iff.mp within
  rw [apply, xor_eq_or_of_disjoint (outside_disjoint inside), inside]

theorem apply_zero (w : MaskedWord) : w.apply 0 = w.value := by
  simp [apply]

theorem fullMask_and (bits : UInt32) : fullMask &&& bits = bits := UInt32.neg_one_and

theorem apply_fullMask (w : MaskedWord) : w.apply fullMask = ~~~w.mask ^^^ w.value := by
  rw [apply, fullMask_and]

/-- What a word makes of no bits and of all bits tells its value and its mask. -/
theorem eq_of_apply {w other : MaskedWord} (same : ∀ old, w.apply old = other.apply old) :
    w = other := by
  have value : w.value = other.value := by
    simpa only [apply_zero] using same 0
  have mask : w.mask = other.mask := by
    have all := same fullMask
    rw [apply_fullMask, apply_fullMask, value] at all
    exact UInt32.not_inj.mp ((UInt32.xor_left_inj _).mp all)
  cases w
  cases other
  simp_all

theorem form_inj {w other : MaskedWord} : w.form = other.form ↔ w = other := by
  constructor
  · intro same
    rw [← w.encode_form, same, other.encode_form]
  · rintro rfl
    rfl

end MaskedWord

namespace Operation

variable {op : Operation}

theorem apply_encode (op : Operation) (old : UInt32) : op.encode.apply old = op.effect old := by
  cases op with
  | set value =>
    have none : ~~~MaskedWord.fullMask = 0 := by decide
    simp [encode, MaskedWord.apply, effect, none]
  | and bits => simp [encode, MaskedWord.apply, effect]
  | or bits =>
    have outside : (old &&& ~~~bits) &&& bits = 0 := outside_disjoint (UInt32.and_self)
    rw [encode, MaskedWord.apply, xor_eq_or_of_disjoint outside, and_not_or, effect]
  | xor bits => simp [encode, MaskedWord.apply, effect]
  | setMasked value mask =>
    have outside : (old &&& ~~~(mask ||| value)) &&& value = 0 := outside_disjoint and_or_self
    rw [encode, MaskedWord.apply, xor_eq_or_of_disjoint outside, effect]
  | setXor value mask => rfl

theorem isWithin_encode (plain : op.kind ≠ .xor ∧ op.kind ≠ .setXor) :
    op.encode.isWithin = true := by
  rw [MaskedWord.isWithin_iff]
  cases op with
  | set value => rw [encode, UInt32.and_comm, MaskedWord.fullMask_and]
  | and bits => simp [encode]
  | or bits => simp [encode]
  | setMasked value mask => rw [encode, and_or_self]
  | xor bits => exact absurd rfl plain.1
  | setXor value mask => exact absurd rfl plain.2

/-- Operations are shown alike exactly when they have the same effect. -/
theorem form_eq_iff {op other : Operation} :
    op.encode.form = other.encode.form ↔ ∀ old, op.effect old = other.effect old := by
  rw [MaskedWord.form_inj]
  constructor
  · intro same old
    rw [← apply_encode, same, apply_encode]
  · intro same
    refine MaskedWord.eq_of_apply fun old => ?_
    rw [apply_encode, apply_encode, same]

/-- The stored word of an operation does what the operation says; a word within its mask writes its
value over the mask; the form that shows a word is stored as it; and words, and with them the forms
that show operations, are told apart by what they do. -/
theorem stored_meaning :
    (∀ v m old : UInt32,
      (set v).encode.apply old = v ∧ (and v).encode.apply old = old &&& v ∧
      (or v).encode.apply old = old ||| v ∧ (xor v).encode.apply old = old ^^^ v ∧
      (setMasked v m).encode.apply old = (old &&& ~~~(m ||| v)) ||| v ∧
      (setXor v m).encode.apply old = (old &&& ~~~m) ^^^ v) ∧
    (∀ v m : UInt32, (set v).encode.isWithin = true ∧ (and v).encode.isWithin = true ∧
      (or v).encode.isWithin = true ∧ (setMasked v m).encode.isWithin = true) ∧
    (∀ w : MaskedWord, w.isWithin = true →
      ∀ old, w.apply old = (old &&& ~~~w.mask) ||| (w.value &&& w.mask)) ∧
    (∀ w : MaskedWord, w.form.operation.encode = w) ∧
    (∀ w other : MaskedWord, (∀ old, w.apply old = other.apply old) → w = other) ∧
    ∀ op other : Operation,
      op.encode.form = other.encode.form ↔ ∀ old, op.effect old = other.effect old := by
  refine ⟨fun v m old => ?_, fun v m => ?_, fun w within => w.apply_of_isWithin within,
    MaskedWord.encode_form, fun _ _ => MaskedWord.eq_of_apply, fun _ _ => form_eq_iff⟩
  · exact ⟨apply_encode _ old, apply_encode _ old, apply_encode _ old, apply_encode _ old,
      apply_encode _ old, apply_encode _ old⟩
  · exact ⟨isWithin_encode (by simp [kind]), isWithin_encode (by simp [kind]),
      isWithin_encode (by simp [kind]), isWithin_encode (by simp [kind])⟩

theorem stored_meaning_byte : MaskedWord.isWithin ⟨0x1200, 0xff00⟩ = true ∧
    MaskedWord.apply ⟨0x1200, 0xff00⟩ 0xabcd = (0xabcd &&& ~~~0xff00) ||| (0x1200 &&& 0xff00) :=
  ⟨by decide, stored_meaning.2.2.1 _ (by decide) _⟩

end Operation

end FilterRecord
