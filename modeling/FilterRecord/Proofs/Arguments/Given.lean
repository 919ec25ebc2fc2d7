/- Proofs/Arguments/Given
   digest: The options that an accepted rule gives: no two of a number, and none that excludes another. -/

import Mathlib.Data.List.Pairwise
import FilterRecord.Proofs.Acceptance

set_option autoImplicit false
set_option relaxedAutoImplicit false

namespace FilterRecord

open Options (Apart Entry Occurrence Register)

namespace Options

/-- One of the options has a number. -/
def Given (options : List Occurrence) (id : Nat) : Prop := ∃ o ∈ options, o.entry.id = id

variable {options : List Occurrence} {o : Occurrence} {id : Nat}

theorem not_given_nil : ¬ Given [] id := by
  rintro ⟨o, member, -⟩
  exact absurd member (by simp)

theorem given_append : Given (options ++ [o]) id ↔ Given options id ∨ o.entry.id = id := by
  simp [Given, or_and_right, exists_or]

def Together (o p : Occurrence) : Prop := Apart o.entry p.entry ∨ Apart p.entry o.entry

instance : Std.Symm Together where
  symm _ _ together := Or.symm together

end Options

namespace Extension

open Options (Together)

variable {host : Context} {ext last : Extension} {words : List String} {final : Register}
  {o p : Occurrence}

theorem apart_of_accepted (accepted : ext.applyTokens host words = (last, .ok final)) :
    (∀ o ∈ (ext.grammar.read words).occurrences, ext.grammar.Knows o) ∧
      (ext.grammar.read words).occurrences.Pairwise
        fun earlier later => Apart earlier.entry later.entry := by
  obtain ⟨-, ended, -⟩ := applyTokens_ok_iff.mp accepted
  obtain ⟨known, apart, -⟩ := Grammar.chain_iff.mp (Grammar.chain_readFrom ended)
  exact ⟨fun o member => (known o member).1, apart⟩

theorem eq_or_together (accepted : ext.applyTokens host words = (last, .ok final))
    (first : o ∈ (ext.grammar.read words).occurrences)
    (second : p ∈ (ext.grammar.read words).occurrences) :
    o = p ∨ Together o p := by
  by_cases same : o = p
  · exact .inl same
  · have together : (ext.grammar.read words).occurrences.Pairwise Together :=
      (apart_of_accepted accepted).2.imp Or.inl
    exact .inr (together.forall first second same)

theorem bit_ne_zero {e : Entry} (row : e ∈ ext.table) : e.bit ≠ 0 := by
  intro none
  have own := (ext.bitwise_table e row e row).mp (by simp [none])
  exact own rfl

theorem eq_of_id (accepted : ext.applyTokens host words = (last, .ok final))
    (first : o ∈ (ext.grammar.read words).occurrences)
    (second : p ∈ (ext.grammar.read words).occurrences) (same : o.entry.id = p.entry.id) :
    o = p := by
  have known := (apart_of_accepted accepted).1
  rcases eq_or_together accepted first second with equal | apart | apart
  · exact equal
  · exact absurd same (Options.id_ne_of_apart (bit_ne_zero (known o first).entry) apart)
  · exact absurd same.symm (Options.id_ne_of_apart (bit_ne_zero (known p second).entry) apart)

end Extension

end FilterRecord
