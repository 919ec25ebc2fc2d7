/- Proofs/Acceptance
   digest: A rule is accepted exactly when its tokens spell options that are taken in turn. -/

import FilterRecord.Registry
import FilterRecord.Proofs.Arguments.Spelling

set_option autoImplicit false
set_option relaxedAutoImplicit false

namespace FilterRecord

open Options (Apart Entry Occurrence Register)

namespace Extension

variable {host : Context} {ext last : Extension} {o : Occurrence} {occurrences : List Occurrence}
  {final : Register} {words : List String}

def take (host : Context) (ext : Extension) (o : Occurrence) : Except RuleError Extension :=
  match ext.apply host o with
  | (next, .ok ()) => .ok next
  | (_, .error e) => .error e

theorem take_ok_iff {next : Extension} :
    ext.take host o = .ok next ↔ ext.apply host o = (next, .ok ()) := by
  unfold take
  split
  · rename_i applied
    simp [applied]
  · rename_i applied
    simp [applied]

theorem applyAll_ok_iff : ext.applyAll host occurrences = (last, .ok ()) ↔
    occurrences.foldlM (take host) ext = .ok last := by
  induction occurrences generalizing ext with
  | nil => simp [applyAll, pure, Except.pure]
  | cons o rest ih =>
    rw [applyAll_cons_ok_iff, List.foldlM_cons, bind_eq_ok_iff]
    refine exists_congr fun next => ?_
    rw [take_ok_iff, ih]

/-- Two rows of a table share no bit exactly when they are two. -/
def Bitwise (table : List Entry) : Prop :=
  ∀ e ∈ table, ∀ other ∈ table, e.bit &&& other.bit = 0 ↔ e.name ≠ other.name

instance (table : List Entry) : Decidable (Bitwise table) :=
  inferInstanceAs (Decidable (∀ e ∈ table, ∀ other ∈ table, _))

theorem bitwise_table (ext : Extension) : Bitwise ext.table := by
  refine forall_table ?_ ?_ ?_ ?_ ?_ ?_ ?_ ext <;> decide

theorem apart_iff {e other : Entry} (row : e ∈ ext.table) (row' : other ∈ ext.table) :
    Apart e other ↔ e.name ≠ other.name ∧ e.bit &&& other.excluded = 0 := by
  rw [Apart, and_or_eq_zero_iff, ext.bitwise_table e row other row']

/-- Options of one table may stand one after another where none comes twice, and none after one
that it excludes. -/
theorem pairwise_apart_iff (rows : ∀ o ∈ occurrences, o.entry ∈ ext.table) :
    occurrences.Pairwise (fun earlier later => Apart earlier.entry later.entry) ↔
      (occurrences.map (·.entry.name)).Nodup ∧
      occurrences.Pairwise fun earlier later => earlier.entry.bit &&& later.entry.excluded = 0 := by
  rw [List.Nodup, List.pairwise_map, ← List.pairwise_and_iff]
  refine List.Pairwise.iff_of_mem fun member member' => ?_
  exact apart_iff (rows _ member) (rows _ member')

theorem applyTokens_ok_iff_read : ext.applyTokens host words = (last, .ok final) ↔
    ∃ occurrences, ext.grammar.read words = ⟨occurrences, .ok final⟩ ∧
      occurrences.foldlM (take host) ext = .ok last ∧ last.finalCheck final = .ok () := by
  rw [applyTokens_ok_iff, applyAll_ok_iff]
  constructor
  · rintro ⟨ran, ended, complete⟩
    refine ⟨(ext.grammar.read words).occurrences, ?_, ran, complete⟩
    rw [← ended]
  · rintro ⟨occurrences, read, ran, complete⟩
    rw [read]
    exact ⟨ran, rfl, complete⟩

end Extension

namespace Registration

/-- A rule is accepted exactly when its tokens spell options of the extension with arguments that
they take, none of them twice and none after one that it excludes, the extension takes each as
those before it left it, and no option is missing. The options seen are then those in the rule. -/
theorem applyTokens_ok_iff_spelled (r : Registration) (host : Context) (words : List String)
    (ext : Extension) (final : Register) :
    r.create.applyTokens host words = (ext, .ok final) ↔
      ∃ (occurrences : List Occurrence) (pieces : List (List String)),
        words = pieces.flatten ∧ List.Forall₂ Occurrence.Spelling occurrences pieces ∧
        (∀ o ∈ occurrences, r.create.grammar.Knows o) ∧
        (occurrences.map (·.entry.name)).Nodup ∧
        occurrences.Pairwise
          (fun earlier later => earlier.entry.bit &&& later.entry.excluded = 0) ∧
        occurrences.foldlM (Extension.take host) r.create = .ok ext ∧
        ext.finalCheck final = .ok () ∧
        final.bits = Options.bits (occurrences.map (·.entry.id)) := by
  rw [Extension.applyTokens_ok_iff_read]
  refine exists_congr fun occurrences => ?_
  rw [Grammar.read_iff r.create.legible_grammar]
  constructor
  · rintro ⟨⟨pieces, cut, spelled, known, apart, bits⟩, ran, complete⟩
    obtain ⟨once, free⟩ := (Extension.pairwise_apart_iff fun o member =>
      (known o member).entry).mp apart
    exact ⟨pieces, cut, spelled, known, once, free, ran, complete, bits⟩
  · rintro ⟨pieces, cut, spelled, known, once, free, ran, complete, bits⟩
    have apart := (Extension.pairwise_apart_iff fun o member =>
      (known o member).entry).mpr ⟨once, free⟩
    exact ⟨⟨pieces, cut, spelled, known, apart, bits⟩, ran, complete⟩

end Registration

end FilterRecord
