/- Proofs/Refusal
   digest: A refused option leaves the record as it was, unless it states a zone. -/

import Mathlib.Tactic.Common
import FilterRecord.Proofs.Acceptance
import FilterRecord.Proofs.Target.ConnTrackWords

set_option autoImplicit false
set_option relaxedAutoImplicit false

namespace FilterRecord

open Text
open Options (Occurrence Register)

namespace ConnTrack

variable {t next : ConnTrack} {o : Occurrence} {e : RuleError}

/-- An option that states a zone, in a layout with room for its direction. -/
def StatesZone (t : ConnTrack) (o : Occurrence) (direction : UInt16) : Prop :=
  direction? o.entry.id = some direction ∧ (direction ≠ 0 → t.revision ≠ 0)

/-- A zone option that changes the record before its argument is read: its direction was not set,
or there was a zone. -/
def Traces (t : ConnTrack) (o : Occurrence) : Prop :=
  ∃ direction, t.StatesZone o direction ∧ (t.flags ||| direction ≠ t.flags ∨ t.zone ≠ 0)

private theorem applyZone_error {direction : UInt16}
    (refused : applyZone direction t o = (next, .error e)) :
    next = { t with flags := t.flags ||| direction, zone := 0 } := by
  unfold applyZone at refused
  dsimp only at refused
  split at refused
  · cases refused
  · split at refused
    · cases refused
    · cases refused
      rfl

private theorem apply_error_other (other : ∀ direction, ¬ t.StatesZone o direction)
    (refused : t.apply o = (next, .error e)) : next = t := by
  unfold apply at refused
  split at refused
  · cases refused
    rfl
  · rename_i supported
    have room (needs : needsRevisionOne o.entry.id = true) : t.revision ≠ 0 := by
      rintro zero
      exact supported (by simp [needs, zero])
    split at refused
    · cases refused
    · rename_i id
      exact absurd ⟨by rw [id]; rfl, fun directed => absurd rfl directed⟩ (other 0)
    · rename_i id
      exact absurd ⟨by rw [id]; rfl, fun _ => room (by rw [id]; rfl)⟩ (other Flag.initial)
    · rename_i id
      exact absurd ⟨by rw [id]; rfl, fun _ => room (by rw [id]; rfl)⟩ (other Flag.reply)
    · exact commit_error refused
    · exact commit_error refused
    · exact commit_error refused
    · exact commit_error refused
    · cases refused
      rfl

private theorem pack_zone_iff {flags zone : UInt16} :
    ({ t with flags := flags, zone := zone } : ConnTrack).pack = t.pack ↔
      flags = t.flags ∧ zone = t.zone := by
  constructor
  · intro same
    simp only [pack, List.append_assoc] at same
    obtain ⟨flags, same⟩ := List.append_inj same (by simp)
    obtain ⟨zone, -⟩ := List.append_inj same (by simp)
    exact ⟨Field.word16_inj.mp flags, Field.word16_inj.mp zone⟩
  · rintro ⟨rfl, rfl⟩
    rfl

/-- A refused option changes the record exactly when it traces, and the bytes show it. -/
theorem apply_error (refused : t.apply o = (next, .error e)) :
    (next = t ↔ ¬ t.Traces o) ∧ (next.pack = t.pack ↔ ¬ t.Traces o) := by
  by_cases zone : ∃ direction, t.StatesZone o direction
  · obtain ⟨direction, states⟩ := zone
    have made : next = { t with flags := t.flags ||| direction, zone := 0 } :=
      applyZone_error ((apply_zone states.1 states.2).symm.trans refused)
    have traces : ¬ t.Traces o ↔ t.flags ||| direction = t.flags ∧ 0 = t.zone := by
      constructor
      · intro none
        by_contra changed
        rw [not_and_or, eq_comm (a := 0)] at changed
        exact none ⟨direction, states, changed⟩
      · rintro ⟨flags, zone⟩ ⟨other, states', changed⟩
        cases states.1.symm.trans states'.1
        exact changed.elim (absurd flags) (absurd zone.symm)
    rw [traces, made, pack_zone_iff]
    refine ⟨⟨fun same => pack_zone_iff.mp (congrArg pack same), ?_⟩, Iff.rfl⟩
    rintro ⟨flags, zone⟩
    rw [flags, zone]
  · have same : next = t := apply_error_other (not_exists.mp zone) refused
    have none : ¬ t.Traces o := fun ⟨direction, states, _⟩ => zone ⟨direction, states⟩
    simp [same, none]

end ConnTrack

namespace Extension

variable {host : Context} {ext next : Extension} {o : Occurrence} {e : RuleError}
  {occurrences : List Occurrence} {words : List String}

/-- An option that changes the record even where it is refused. -/
def Traces : Extension → Occurrence → Prop
  | connTrack t, o => t.Traces o
  | _, _ => False

private theorem unchanged {P : Prop} (same : next = ext) (none : ¬ P) :
    (next = ext ↔ ¬ P) ∧ (next.pack = ext.pack ↔ ¬ P) := by
  simp [same, none]

theorem apply_error (refused : ext.apply host o = (next, .error e)) :
    (next = ext ↔ ¬ ext.Traces o) ∧ (next.pack = ext.pack ↔ ¬ ext.Traces o) := by
  cases ext with
  | mark | classify | ipMark | socket | reversePath => exact unchanged (commit_error refused) id
  | connTrack t =>
    simp only [apply] at refused
    rcases applied : t.apply o with ⟨made, outcome⟩
    rw [applied] at refused
    cases refused
    obtain ⟨record, bytes⟩ := ConnTrack.apply_error applied
    exact ⟨(connTrack.injEq made t).to_iff.trans record, bytes⟩

theorem applyAll_error (refused : ext.applyAll host occurrences = (next, .error e)) :
    ∃ before o later state, occurrences = before ++ o :: later ∧
      before.foldlM (take host) ext = .ok state ∧ state.apply host o = (next, .error e) := by
  induction occurrences generalizing ext with
  | nil => cases refused
  | cons first rest ih =>
    unfold applyAll at refused
    split at refused
    · rename_i made taken
      obtain ⟨before, o, later, state, cut, ran, stopped⟩ := ih refused
      refine ⟨first :: before, o, later, state, by rw [cut, List.cons_append], ?_, stopped⟩
      rw [List.foldlM_cons, take_ok_iff.mpr taken]
      exact ran
    · rename_i stopped
      cases refused
      exact ⟨[], first, rest, ext, rfl, rfl, stopped⟩

/-- A rule is refused at an option, or, with all options taken that can be read, at a token that
cannot or for want of an option. -/
theorem applyTokens_error (refused : ext.applyTokens host words = (next, .error e)) :
    ext.applyAll host (ext.grammar.read words).occurrences = (next, .error e) ∨
      ((ext.grammar.read words).occurrences.foldlM (take host) ext = .ok next ∧
        ((ext.grammar.read words).ending = .error e ∨
          ∃ seen, (ext.grammar.read words).ending = .ok seen ∧
            next.finalCheck seen = .error e)) := by
  unfold applyTokens at refused
  dsimp only at refused
  split at refused
  · rename_i stopped
    cases refused
    exact .inl stopped
  · rename_i ran
    refine .inr ?_
    split at refused
    · rename_i ended
      cases refused
      exact ⟨applyAll_ok_iff.mp ran, .inl ended⟩
    · rename_i seen ended
      obtain ⟨rfl, incomplete⟩ := Prod.mk.inj refused
      exact ⟨applyAll_ok_iff.mp ran, .inr ⟨seen, ended, map_eq_error_iff.mp incomplete⟩⟩

/-- A refused option leaves the extension and the bytes of its record as they were, unless it is a
zone option of connection tracking whose direction is new or which replaces a zone. A refused rule
leaves what the options before the refusal made, each spelled by the tokens before it. -/
theorem refused_unchanged_iff (host : Context) (ext : Extension) :
    (∀ o next e, ext.apply host o = (next, .error e) →
      (next = ext ↔ ¬ ext.Traces o) ∧ (next.pack = ext.pack ↔ ¬ ext.Traces o)) ∧
    ∀ words next e, ext.applyTokens host words = (next, .error e) →
      ∃ before later pieces rest state,
        (ext.grammar.read words).occurrences = before ++ later ∧
        words = pieces.flatten ++ rest ∧ List.Forall₂ Occurrence.Spelling (before ++ later) pieces ∧
        before.foldlM (take host) ext = .ok state ∧
        ((later = [] ∧ next = state ∧ ((ext.grammar.read words).ending = .error e ∨
            ∃ seen, (ext.grammar.read words).ending = .ok seen ∧
              state.finalCheck seen = .error e)) ∨
          ∃ o unread, later = o :: unread ∧ state.apply host o = (next, .error e) ∧
            (next = state ↔ ¬ state.Traces o) ∧ (next.pack = state.pack ↔ ¬ state.Traces o)) := by
  refine ⟨fun o next e refused => apply_error refused, fun words next e refused => ?_⟩
  obtain ⟨pieces, rest, cut, spelled, -⟩ := ext.grammar.spelled_readFrom .empty false words
  have read : ext.grammar.readFrom .empty false words = ext.grammar.read words := rfl
  rw [read] at spelled
  rcases applyTokens_error refused with stopped | ⟨ran, ended⟩
  · obtain ⟨before, o, unread, state, parted, ran, refused⟩ := applyAll_error stopped
    rw [parted] at spelled
    exact ⟨before, o :: unread, pieces, rest, state, parted, cut, spelled, ran,
      .inr ⟨o, unread, rfl, refused, apply_error refused⟩⟩
  · refine ⟨_, [], pieces, rest, next, (List.append_nil _).symm, cut, ?_, ran,
      .inl ⟨rfl, rfl, ended⟩⟩
    rwa [List.append_nil]

/-- A helper's name that is too long for its slot leaves the zone of an earlier rule. -/
theorem refused_unchanged_helper : ∃ next e,
    (connTrack { ConnTrack.create 1 with zone := 7 }).applyTokens .empty
      ["--helper", "a-name-too-long-for-its-slot"] = (next, .error e) ∧
      next = connTrack { ConnTrack.create 1 with zone := 7 } := by
  obtain ⟨next, e, refused⟩ : ∃ next e,
      (connTrack { ConnTrack.create 1 with zone := 7 }).applyTokens .empty
        ["--helper", "a-name-too-long-for-its-slot"] = (next, .error e) :=
    ⟨_, _, by with_unfolding_all rfl⟩
  obtain ⟨o, read, helper, error, stopped⟩ : ∃ o,
      ((connTrack { ConnTrack.create 1 with zone := 7 }).grammar.read
        ["--helper", "a-name-too-long-for-its-slot"]).occurrences = [o] ∧
      ConnTrack.direction? o.entry.id = none ∧ ∃ error,
      (connTrack { ConnTrack.create 1 with zone := 7 }).take .empty o = .error error :=
    ⟨_, by with_unfolding_all rfl, rfl, _, by with_unfolding_all rfl⟩
  obtain ⟨before, later, -, -, state, parted, -, -, ran, ended⟩ :=
    (refused_unchanged_iff .empty (connTrack { ConnTrack.create 1 with zone := 7 })).2 _ _ _ refused
  refine ⟨next, e, refused, ?_⟩
  rw [read] at parted
  rcases List.append_eq_singleton_iff.mp parted.symm with ⟨rfl, rfl⟩ | ⟨rfl, rfl⟩
  · cases ran
    rcases ended with ⟨none, -⟩ | ⟨_, _, made, -, record, -⟩
    · cases none
    · cases made
      refine record.mpr ?_
      rintro ⟨direction, ⟨stated, -⟩, -⟩
      rw [helper] at stated
      cases stated
  · rw [List.foldlM_cons, stopped] at ran
    cases ran

/-- A direction stays when the zone after it is no number. -/
theorem refused_zone_traces : ∃ next e,
    (connTrack (.create 1)).applyTokens .empty ["--zone-orig", "x"] = (next, .error e) ∧
      next.pack ≠ (connTrack (.create 1)).pack := by
  refine ⟨_, _, by with_unfolding_all rfl, ?_⟩
  decide

end Extension

end FilterRecord
