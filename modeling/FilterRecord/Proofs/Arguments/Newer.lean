/- Proofs/Arguments/Newer
   digest: The tokens of a rule are read the same by a revision with more options. -/

import Mathlib.Data.List.Forall2
import FilterRecord.Proofs.Acceptance

set_option autoImplicit false
set_option relaxedAutoImplicit false

namespace FilterRecord

open Options (Entry Occurrence Register)

namespace Options.Occurrence

def forRevision (revision : UInt8) (o : Occurrence) : Occurrence := { o with revision := revision }

theorem spelling_forRevision {revision : UInt8} {o : Occurrence} {piece : List String}
    (spelled : o.Spelling piece) : (o.forRevision revision).Spelling piece := by
  cases spelled with
  | alone argument => exact .alone argument
  | apart argument => exact .apart argument
  | joined argument => exact .joined argument

end Options.Occurrence

namespace Grammar

variable {g new : Grammar} {o : Occurrence} {occurrences : List Occurrence} {tokens : List String}
  {final : Register}

structure Extends (new g : Grammar) : Prop where
  extension : new.extension = g.extension
  rows : g.table ⊆ new.table

theorem knows_forRevision (extended : new.Extends g) (known : g.Knows o) :
    new.Knows (o.forRevision new.revision) where
  extension := known.extension.trans extended.extension.symm
  revision := rfl
  entry := extended.rows known.entry
  invertible := known.invertible
  argument := known.argument
  operand := extended.extension ▸ known.operand

theorem read_extended (legible : g.Legible) (legible_new : new.Legible) (extended : new.Extends g)
    (read : g.read tokens = ⟨occurrences, .ok final⟩) :
    new.read tokens = ⟨occurrences.map (·.forRevision new.revision), .ok final⟩ := by
  obtain ⟨pieces, cut, spelled, known, apart, bits⟩ := (read_iff legible).mp read
  refine (read_iff legible_new).mpr ⟨pieces, cut, ?_, ?_, List.pairwise_map.mpr apart, ?_⟩
  · exact List.forall₂_map_left_iff.mpr
      (spelled.imp fun _ _ => Options.Occurrence.spelling_forRevision)
  · intro o member
    obtain ⟨before, written, rfl⟩ := List.mem_map.mp member
    exact knows_forRevision extended (known before written)
  · rw [bits, List.map_map]
    rfl

end Grammar

/-- What an extension of one kind makes of an option that it takes, as a relation of its records. -/
structure Extension.Acts {α : Type} (host : Context) (wrap : α → Extension)
    (acts : α → Occurrence → α → Prop) : Prop where
  apply_iff : ∀ {a : α} {o : Occurrence} {next : Extension},
    (wrap a).apply host o = (next, .ok ()) ↔ ∃ made, acts a o made ∧ wrap made = next
  complete : ∀ {seen : Register} {a : α} (b : α),
    (wrap a).finalCheck seen = .ok () → (wrap b).finalCheck seen = .ok ()

/-- An option that is taken by the first of two related records is taken by the second, for its own
revision, and leaves them related. -/
def Simulates {α : Type} (acts : α → Occurrence → α → Prop) (g : Grammar) (revision : UInt8)
    (R : List Occurrence → α → α → Prop) : Prop :=
  ∀ ⦃taken : List Occurrence⦄ ⦃a b next : α⦄ ⦃o : Occurrence⦄, R taken a b → g.Knows o →
    acts a o next → ∃ made, acts b (o.forRevision revision) made ∧ R (taken ++ [o]) next made

namespace Extension

variable {α : Type} {host : Context} {wrap : α → Extension} {acts : α → Occurrence → α → Prop}
  {g : Grammar} {revision : UInt8} {R : List Occurrence → α → α → Prop} {a b : α}
  {last : Extension} {tokens : List String} {seen : Register}

private theorem applyAll_simulates (actual : Acts host wrap acts)
    (step : Simulates acts g revision R) {taken occurrences : List Occurrence}
    (known : ∀ o ∈ occurrences, g.Knows o) (related : R taken a b)
    (ran : (wrap a).applyAll host occurrences = (last, .ok ())) :
    ∃ x y, wrap x = last ∧
      (wrap b).applyAll host (occurrences.map (·.forRevision revision)) = (wrap y, .ok ()) ∧
      R (taken ++ occurrences) x y := by
  induction occurrences generalizing taken a b with
  | nil =>
    cases ran
    exact ⟨a, b, rfl, rfl, by simpa using related⟩
  | cons o rest ih =>
    obtain ⟨own, others⟩ := List.forall_mem_cons.mp known
    obtain ⟨_, applied, ran⟩ := applyAll_cons_ok_iff.mp ran
    obtain ⟨next, acted, rfl⟩ := actual.apply_iff.mp applied
    obtain ⟨made, acted', related⟩ := step related own acted
    obtain ⟨x, y, same, ran', related⟩ := ih others related ran
    have applied' := actual.apply_iff.mpr ⟨made, acted', rfl⟩
    exact ⟨x, y, same, applyAll_cons_ok_iff.mpr ⟨_, applied', ran'⟩, by simpa using related⟩

/-- A rule that is accepted is accepted by a record whose grammar has more rows and that takes each
option where the first one does. -/
theorem applyTokens_simulates (actual : Acts host wrap acts)
    (extended : (wrap b).grammar.Extends (wrap a).grammar)
    (step : Simulates acts (wrap a).grammar (wrap b).revision R) (start : R [] a b)
    (accepted : (wrap a).applyTokens host tokens = (last, .ok seen)) :
    ∃ x y taken, wrap x = last ∧ (wrap b).applyTokens host tokens = (wrap y, .ok seen) ∧
      R taken x y ∧ seen.bits = Options.bits (taken.map (·.entry.id)) := by
  obtain ⟨ran, ended, checked⟩ := applyTokens_ok_iff.mp accepted
  have read : (wrap a).grammar.read tokens =
      ⟨((wrap a).grammar.read tokens).occurrences, .ok seen⟩ := by
    rw [← ended]
  obtain ⟨-, -, -, known, -, bits⟩ := (Grammar.read_iff (wrap a).legible_grammar).mp read
  obtain ⟨x, y, rfl, ran', related⟩ := applyAll_simulates actual step known start ran
  rw [List.nil_append] at related
  refine ⟨x, y, _, rfl, applyTokens_ok_iff.mpr ?_, related, bits⟩
  rw [Grammar.read_extended (wrap a).legible_grammar (wrap b).legible_grammar extended read]
  exact ⟨ran', rfl, actual.complete y checked⟩

end Extension

end FilterRecord
