/- Proofs/Target/NormalForm
   digest: What the saved text of any target shows is all that an accepted rule takes from it. -/

import FilterRecord.Proofs.Arguments.Accepting
import FilterRecord.Proofs.Target.ConnTrackSaved
import FilterRecord.Proofs.Target.IpMark
import FilterRecord.Proofs.Target.Mark

set_option autoImplicit false
set_option relaxedAutoImplicit false

namespace FilterRecord

open Text
open Options (Entry Occurrence Operand Register shown)

variable {host : Context} {again : Extension} {seen : Register}

namespace Mark

variable {m b : Mark}

private theorem fits_of_accepted {e : Entry} {mark : UInt64} (row : e ∈ table)
    (kind : e.kind = .word32 ∨ e.kind = .masked)
    (accepted : (Extension.mark b).applyTokens host ["--" ++ e.name, Numeral.hex mark.toNat] =
      (again, .ok seen)) : mark ≤ 0xffffffff := by
  have takes : e.takesArgument = true := by
    rcases kind with kind | kind <;> simp [Entry.takesArgument, kind]
  have small := mark.toNat_lt
  obtain ⟨operand, next, admitted, -⟩ := Extension.resume_written false
    (some (Numeral.hex mark.toNat)) [] (Extension.legible_grammar _) row takes.symm accepted
  exact UInt64.le_iff_toNat_le.mpr (Options.hex_le kind small admitted.operand)

theorem storable_of_accepted
    (accepted : (Extension.mark (create m.revision)).applyTokens host
      (tokens ((Extension.mark m).saved host)) = (again, .ok seen)) : m.Storable := by
  have cut : tokens ((Extension.mark m).saved host) = m.savedWords :=
    tokens_render m.solid_savedWords
  rw [cut] at accepted
  cases m with
  | plain mark =>
    exact fits_of_accepted (e := ⟨"set-mark", Id.setMark, .masked, operationBits, false⟩)
      (by decide) (.inr rfl) accepted
  | moded mark mode =>
    by_cases replaces : mode = 0
    · rw [replaces] at accepted
      refine ⟨?_, by rw [replaces]; decide⟩
      exact fits_of_accepted (e := ⟨"set-mark", Id.setMark, .masked, operationBits, false⟩)
        (by decide) (.inr rfl) accepted
    · by_cases keeps : mode = 1
      · rw [keeps] at accepted
        refine ⟨?_, by rw [keeps]; decide⟩
        exact fits_of_accepted (e := ⟨"and-mark", Id.andMark, .word32, operationBits, false⟩)
          (by decide) (.inl rfl) accepted
      · by_cases turns : mode = 2
        · rw [turns] at accepted
          refine ⟨?_, by rw [turns]; decide⟩
          exact fits_of_accepted (e := ⟨"or-mark", Id.orMark, .word32, operationBits, false⟩)
            (by decide) (.inl rfl) accepted
        · -- An unknown mode has no words, and a rule without words states no operation.
          have unknown : modeName? mode = none := by
            unfold modeName?
            split <;> simp_all
          simp only [savedWords, savedMode, unknown] at accepted
          have complete := (Extension.applyTokens_nil_iff.mp accepted).2.2
          cases complete
  | masked word => trivial

end Mark

namespace IpMark

variable {m : IpMark}

/-- What the saved text shows of a record: one flag tells the address. -/
def visible : IpMark → IpMark
  | address andMask orMask selector shift => address andMask orMask selector shift
  | masked word flags shift => masked word (flags &&& 1) shift

theorem savedWords_visible (m : IpMark) : m.visible.savedWords = m.savedWords := by
  cases m with
  | address => rfl
  | masked word flags shift => simp [visible, savedWords, ruleWords, UInt8.and_assoc]

theorem storable_of_accepted
    (accepted : (Extension.ipMark (create m.revision)).applyTokens host
      (tokens ((Extension.ipMark m).saved host)) = (again, .ok seen)) : m.visible.Storable := by
  cases m with
  | address andMask orMask selector shift =>
    by_contra unknown
    have large : 1 < selector := UInt8.not_le.mp unknown
    have words : (Extension.ipMark (address andMask orMask selector shift)).savedWords host = [] :=
      if_pos large
    rw [Extension.saved, words] at accepted
    have complete := (Extension.applyTokens_nil_iff.mp accepted).2.2
    cases complete
  | masked word flags shift =>
    have one : (1 : UInt8).toBitVec = BitVec.twoPow 8 0 := by decide
    show flags &&& 1 ≤ 1
    rcases byte_and_one_bit (a := flags) one with outside | inside
    · rw [outside]
      decide
    · rw [inside]
      exact UInt8.le_refl 1

end IpMark

end FilterRecord
