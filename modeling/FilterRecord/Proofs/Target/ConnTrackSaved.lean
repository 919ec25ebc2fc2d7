/- Proofs/Target/ConnTrackSaved
   digest: What a saved CT rule gives again, and the one option that it leaves out. -/

import FilterRecord.Proofs.Decoding
import FilterRecord.Proofs.Target.ConnTrackWords

set_option autoImplicit false
set_option relaxedAutoImplicit false

namespace FilterRecord.ConnTrack

open Text
open Options (Entry Occurrence Operand Register shown)

variable (host : Context) {done : List Occurrence} {seen : Register} {t next : ConnTrack}
  {o : Occurrence}

private theorem exists_flags {direction : UInt16} (made : ZoneFrom t o direction) :
    ∃ mark ∈ [0, Flag.zoneMark], t.flags = direction ||| mark ∧
      (mark ≠ 0 → t.zone = 0) := by
  rcases made.left with ⟨_, flags, zone⟩ | ⟨_, flags⟩
  · exact ⟨Flag.zoneMark, by simp, flags, fun _ => zone⟩
  · exact ⟨0, by simp, by simpa using flags, fun nonzero => absurd rfl nonzero⟩

theorem untracked_words (revision : UInt8) :
    ({ create revision with flags := Flag.untracked } : ConnTrack).savedWords = ["--notrack"] := by
  have asked : (Flag.untracked &&& Flag.byAlias != 0) = false := by decide
  have only : Flag.untracked ≠ 0 := by decide
  have mark : (Flag.untracked &&& Flag.zoneMark != 0) = false := by decide
  simp [savedWords, ruleWords, has, create, shown, asked, only, mark]

theorem restored_untracked (revision : UInt8) :
    ∃ final, (Extension.connTrack (create revision)).applyTokens host ["--notrack"] =
      (.connTrack { create revision with flags := Flag.untracked }, .ok final) := by
  have row : notrackRow ∈ fullTable := by decide
  have early : needsRevisionOne Id.notrack = false := rfl
  have applied (o : Occurrence) (entry : o.entry = notrackRow) : (create revision).apply o =
      ({ create revision with flags := Flag.untracked }, .ok ()) := by
    have id : o.entry.id = Id.notrack := by rw [entry]; rfl
    simp [apply, id, early, create]
  exact ⟨_, Extension.applyTokens_option (Extension.legible_grammar _) row .flag
    (apply_extension (applied _ rfl)) rfl⟩

theorem Tracked.expressible (tracked : Tracked done seen t) (asked : t.viaAlias = false) :
    t.Expressible where
  zone := by
    cases tracked.zone with
    | unset _ _ flags zone =>
      exact ⟨0, 0, by simp, by simp, by simp [flags], fun _ => zone,
        fun nonzero => absurd rfl nonzero⟩
    | @set o direction _ _ made _ =>
      obtain ⟨mark, marks, flags, noZone⟩ := exists_flags made
      exact ⟨direction, mark, direction_mem made.stated, marks, flags, noZone, made.room⟩
  events := tracked.events
  expectations := tracked.expectations
  helper := tracked.helper
  timeout := tracked.timeout
  first := tracked.first
  asked := asked

theorem restored_reached (reached : Reached done seen t) (asked : t.viaAlias = false) :
    ∃ final, (Extension.connTrack (create t.revision)).applyTokens host
      (tokens ((Extension.connTrack t).saved host)) = (.connTrack t.kept, .ok final) := by
  cases reached with
  | tracked tracked => exact restored host (tracked.expressible asked)
  | untracked _ _ _ record =>
    have words : (Extension.connTrack t).savedWords host = ["--notrack"] := by
      rw [record]
      exact untracked_words t.revision
    have cut : tokens ((Extension.connTrack t).saved host) = ["--notrack"] := by
      rw [Extension.saved, words]
      exact tokens_render (by decide)
    have whole : t.kept = { create t.revision with flags := Flag.untracked } := by
      have only : Flag.untracked ≠ 0 := by decide
      rw [record]
      simp [kept, has, create, only]
    rw [cut, whole]
    exact restored_untracked host t.revision

/-- An option that the saved text leaves out: the zone of one direction, with the number zero. -/
def Drops (o : Occurrence) : Prop :=
  (o.entry.name = "zone-orig" ∨ o.entry.name = "zone-reply") ∧
    Numeral.whole? o.rawArgument.toList = some 0

private theorem row_direction : ∀ e ∈ fullTable, (e.name = "zone-orig" ∨ e.name = "zone-reply") ↔
    direction? e.id = some Flag.initial ∨ direction? e.id = some Flag.reply := by
  decide

private theorem has_zoneMark {direction : UInt16} (made : ZoneFrom t o direction) :
    (sameLetters o.rawArgument "mark" = true ∧ t.has Flag.zoneMark = true) ∨
      (Numeral.whole? o.rawArgument.toList = some t.zone.toNat ∧ t.flags = direction ∧
        t.has Flag.zoneMark = false) := by
  have known := direction_mem made.stated
  rcases made.left with ⟨same, flags, -⟩ | ⟨whole, flags⟩
  · have marked := (flagged_zone direction known Flag.zoneMark (by simp)).2.1
    rw [← flags] at marked
    exact .inl ⟨same, marked⟩
  · have plain := (flagged_zone direction known 0 (by simp)).2.1
    rw [UInt16.or_zero, ← flags] at plain
    exact .inr ⟨whole, flags, plain⟩

private theorem drops_iff {direction : UInt16} (made : ZoneFrom t o direction)
    (row : o.entry ∈ fullTable) : Drops o ↔ direction ≠ 0 ∧ t.showsZone = false := by
  have directed : (o.entry.name = "zone-orig" ∨ o.entry.name = "zone-reply") ↔ direction ≠ 0 := by
    have known := direction_mem made.stated
    rw [row_direction o.entry row, made.stated]
    simp only [List.mem_cons, List.not_mem_nil, or_false] at known
    rcases known with rfl | rfl | rfl <;> decide
  rw [Drops, directed]
  refine and_congr_right fun _ => ?_
  rcases has_zoneMark made with ⟨same, shows⟩ | ⟨whole, -, hides⟩
  · simp [whole?_mark same, showsZone, shows]
  · rw [whole, showsZone, hides]
    simp [← UInt16.toNat_inj]

private theorem flags_kept {direction : UInt16} (made : ZoneFrom t o direction) :
    t.kept.flags = t.flags ↔ ¬ (direction ≠ 0 ∧ t.showsZone = false) := by
  have known := direction_mem made.stated
  cases shows : t.showsZone with
  | true => simp [kept, shows]
  | false =>
    rcases has_zoneMark made with ⟨-, marked⟩ | ⟨-, flags, -⟩
    · exact absurd shows (by simp [showsZone, marked])
    · have tracked : t.has Flag.untracked = false := by
        have plain := (flagged_zone direction known 0 (by simp)).2.2.1
        rwa [UInt16.or_zero, ← flags] at plain
      simp [kept, shows, tracked, flags, eq_comm]

private theorem pack_kept (reached : Reached done seen t)
    (rows : ∀ o ∈ done, o.entry ∈ fullTable) :
    t.kept.pack = t.pack ↔ ¬ ∃ o ∈ done, Drops o := by
  have bytes : t.kept.pack = t.pack ↔ t.kept.flags = t.flags := by
    simp [pack, kept, Field.word16_inj]
  have directed {o : Occurrence} (member : o ∈ done) (drops : Drops o) :
      direction? o.entry.id ≠ none := by
    rcases (row_direction o.entry (rows o member)).mp drops.1 with stated | stated <;>
      simp [stated]
  rw [bytes]
  cases reached with
  | tracked tracked =>
    cases tracked.zone with
    | unset _ none_done flags _ =>
      have same : t.kept.flags = t.flags := by simp [kept, flags]
      refine iff_of_true same ?_
      rintro ⟨o, member, drops⟩
      exact directed member drops (none_done o member)
    | @set o direction _ member made only =>
      rw [flags_kept made, ← drops_iff made (rows o member)]
      refine not_congr ⟨fun drops => ⟨o, member, drops⟩, ?_⟩
      rintro ⟨p, known, drops⟩
      rwa [only p known (directed known drops)] at drops
  | @untracked o alone entry _ record =>
    have same : t.kept.flags = t.flags := by
      have only : Flag.untracked ≠ 0 := by decide
      rw [record]
      simp [kept, has, create, only]
    refine iff_of_true same ?_
    rintro ⟨p, member, drops⟩
    rw [alone] at member
    rw [List.mem_singleton.mp member] at drops
    have name := drops.1
    rw [entry] at name
    exact absurd name (by decide)

theorem registered : ∀ r ∈ Registry.all, r.name = name → r.family = .connTrack := by
  decide

theorem reached_applyTokens {revision : UInt8} {words : List String} {ext : Extension}
    {final : Register}
    (accepted : (Extension.connTrack (create revision)).applyTokens host words = (ext, .ok final))
    (unbroken : ∀ o ∈ ((Extension.connTrack (create revision)).grammar.read words).occurrences,
      o.entry.name = "helper" ∨ o.entry.name = "timeout" → Unbroken o.rawArgument) :
    ∃ t, ext = .connTrack t ∧ t.revision = revision ∧ t.viaAlias = false ∧
      (∀ o ∈ ((Extension.connTrack (create revision)).grammar.read words).occurrences,
        o.entry ∈ fullTable) ∧
      Reached ((Extension.connTrack (create revision)).grammar.read words).occurrences final t := by
  refine Extension.applyTokens_induction (P := fun done seen current => ∃ t,
    current = .connTrack t ∧ t.revision = revision ∧ t.viaAlias = false ∧
      (∀ o ∈ done, o.entry ∈ fullTable) ∧ Reached done seen t) accepted
    ⟨create revision, rfl, rfl, rfl, by simp, reached_create revision⟩ ?_
  rintro done seen _ next o ⟨t, rfl, same, asked, rows, reached⟩ member admitted taken
  obtain ⟨made, applied, rfl⟩ := Extension.map_connTrack_ok taken
  have step := step_of_apply applied
  have row : o.entry ∈ fullTable := admitted.entry
  have free := Register.check_eq_ok_iff.mp admitted.free
  have written (text : String) (operand : o.operand = .text text) : o.rawArgument = text := by
    simp [Occurrence.rawArgument, admitted.argument_of_text operand]
  refine ⟨made, rfl, (revision_step step).trans same, (viaAlias_step step).trans asked, ?_,
    reached_step reached row free written (unbroken o member) step⟩
  intro p known
  rcases List.mem_append.mp known with known | known
  · exact rows p known
  · rwa [List.mem_singleton.mp known]

/-- The saved text of an accepted rule is accepted at the same revision, and gives the same record
exactly when no option states a zone of the number zero for one direction. -/
theorem parse_saved_tracking {revision : Option UInt8} {words : List String} {numeric : Bool}
    {host : Context} {result : RuleView}
    (parsed : Rule.parse "CT" revision words numeric host = .ok result)
    (unbroken : ∀ o ∈ Rule.occurrences "CT" revision words,
      o.entry.name = "helper" ∨ o.entry.name = "timeout" → Unbroken o.rawArgument) :
    ∃ again, Rule.parse "CT" (some result.view.revision) (tokens result.view.saved) numeric host =
        .ok again ∧
      (again.view.record = result.view.record ↔
        ¬ ∃ o ∈ Rule.occurrences "CT" revision words, Drops o) := by
  obtain ⟨r, ext, final, found, accepted, rfl⟩ := Rule.parse_ok parsed
  have created : r.create = .connTrack (create r.revision) :=
    Registry.create_of_lookup registered found
  rw [Rule.occurrences_of_lookup found, created] at unbroken ⊢
  rw [created] at accepted
  obtain ⟨t, rfl, same, asked, rows, reached⟩ := reached_applyTokens host accepted unbroken
  obtain ⟨seen, back⟩ := restored_reached host reached asked
  rw [same, ← created] at back
  refine ⟨_, Rule.parse_of_applyTokens (Registry.lookup_again found) back, ?_⟩
  exact pack_kept reached rows

theorem parse_saved_helper_zone : ∃ result again,
    Rule.parse "CT" (some 1) ["--helper", "ftp", "--zone-orig", "5"] false .empty = .ok result ∧
      Rule.parse "CT" (some result.view.revision) (tokens result.view.saved) false .empty =
        .ok again ∧ again.view.record = result.view.record := by
  obtain ⟨result, parsed⟩ : ∃ result,
      Rule.parse "CT" (some 1) ["--helper", "ftp", "--zone-orig", "5"] false .empty = .ok result :=
    ⟨_, by with_unfolding_all rfl⟩
  have options : (Rule.occurrences "CT" (some 1) ["--helper", "ftp", "--zone-orig", "5"]).map
      (fun o => (o.entry.name, o.rawArgument)) = [("helper", "ftp"), ("zone-orig", "5")] := by
    with_unfolding_all rfl
  have listed (o : Occurrence)
      (member : o ∈ Rule.occurrences "CT" (some 1) ["--helper", "ftp", "--zone-orig", "5"]) :
      (o.entry.name, o.rawArgument) ∈ [("helper", "ftp"), ("zone-orig", "5")] := by
    rw [← options]
    exact List.mem_map_of_mem member
  have solid : ∀ p ∈ [("helper", "ftp"), ("zone-orig", "5")], Unbroken p.2 := by decide
  have kept : ∀ p ∈ [("helper", "ftp"), ("zone-orig", "5")],
      Numeral.whole? p.2.toList ≠ some 0 := by decide
  obtain ⟨again, restored, exact_record⟩ := parse_saved_tracking parsed fun o member _ =>
    solid _ (listed o member)
  refine ⟨result, again, parsed, restored, exact_record.mpr ?_⟩
  rintro ⟨o, member, drops⟩
  exact kept _ (listed o member) drops.2

/-- The zone of the number zero for the first direction is in the record, but not in the saved
text. -/
theorem parse_saved_direction_zero : ∃ result again,
    Rule.parse "CT" (some 2) ["--zone-orig", "0"] false .empty = .ok result ∧
      result.view.saved = "" ∧
      Rule.parse "CT" (some 2) (tokens result.view.saved) false .empty = .ok again ∧
      again.view.record ≠ result.view.record := by
  obtain ⟨result, parsed, saved, flagged⟩ : ∃ result,
      Rule.parse "CT" (some 2) ["--zone-orig", "0"] false .empty = .ok result ∧
        result.view.saved = "" ∧ result.view.record.head? = some 4 :=
    ⟨_, by with_unfolding_all rfl, by decide, by decide⟩
  obtain ⟨again, restored, plain⟩ : ∃ again,
      Rule.parse "CT" (some 2) [] false .empty = .ok again ∧ again.view.record.head? = some 0 :=
    ⟨_, by with_unfolding_all rfl, by decide⟩
  have none : tokens "" = [] := by decide
  refine ⟨result, again, parsed, saved, by rw [saved, none, restored], ?_⟩
  intro same
  rw [same, flagged] at plain
  exact absurd plain (by decide)

end FilterRecord.ConnTrack
