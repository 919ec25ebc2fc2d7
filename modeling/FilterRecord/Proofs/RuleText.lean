/- Proofs/RuleText
   digest: The text of an accepted rule is a rule again, but for the early alias. -/

import FilterRecord.Proofs.Match.ReversePathSaved
import FilterRecord.Proofs.Match.SocketSaved
import FilterRecord.Proofs.Target.ConnTrackSaved
import FilterRecord.Proofs.Target.Restoring

set_option autoImplicit false
set_option relaxedAutoImplicit false

namespace FilterRecord

open Text
open Options (Entry Occurrence Register)

namespace Grammar

theorem read_bare {g : Grammar} {seen final : Register} {inverted : Bool} {words : List String}
    (bare : g.table = []) (ended : (g.readFrom seen inverted words).ending = .ok final) :
    words = [] ∧ inverted = false := by
  fun_induction readFrom g seen inverted words with
  | case1 =>
    split at ended
    · cases ended
    · rename_i upright
      exact ⟨rfl, by simpa using upright⟩
  | case2 => cases ended
  | case3 =>
    rename_i ih
    exact absurd (ih ended).2 (by simp)
  | case4 => cases ended
  | case5 =>
    rename_i read _ _
    have row := (admits_of_occurrence read).entry
    rw [bare] at row
    exact absurd row (by simp)

end Grammar

namespace ConnTrack

variable {host : Context} {revision : UInt8} {words : List String} {ext : Extension}
  {final : Register}

theorem registered_alias : ∀ r ∈ Registry.all, r.name = aliasName ↔ r.family = .noTrack := by
  decide

theorem applyTokens_alias_iff :
    (Extension.connTrack (createAlias revision)).applyTokens host words = (ext, .ok final) ↔
      words = [] ∧ ext = .connTrack (createAlias revision) ∧ final = .empty := by
  constructor
  · intro accepted
    obtain ⟨rfl, -⟩ := Grammar.read_bare rfl (Extension.applyTokens_ok_iff.mp accepted).2.1
    obtain ⟨same, none, -⟩ := Extension.applyTokens_nil_iff.mp accepted
    exact ⟨rfl, same, none⟩
  · rintro ⟨rfl, rfl, rfl⟩
    exact Extension.applyTokens_nil_iff.mpr ⟨rfl, rfl, rfl⟩

/-- Only from revision 2 on does the record say that it is the alias, which then needs no words. -/
theorem saved_alias (host : Context) :
    tokens ((Extension.connTrack (createAlias revision)).saved host) =
      if revision < 2 then ["--notrack"] else [] := by
  by_cases early : revision < 2
  · have record : createAlias revision =
        { create revision with flags := Flag.untracked, viaAlias := true } := by
      rw [createAlias, if_pos early]
      rfl
    have words : (Extension.connTrack (createAlias revision)).savedWords host = ["--notrack"] := by
      rw [record]
      exact untracked_words revision
    rw [Extension.saved, words, if_pos early]
    exact tokens_render (by decide)
  · have words : (Extension.connTrack (createAlias revision)).savedWords host = [] := by
      have flags : (createAlias revision).flags = Flag.untracked ||| Flag.byAlias := if_neg early
      have asked : ((Flag.untracked ||| Flag.byAlias) &&& Flag.byAlias != 0) = true := by decide
      simp [Extension.savedWords, savedWords, has, flags, asked]
    rw [Extension.saved, words, if_neg early]
    rfl

end ConnTrack

namespace Extension

theorem part_apply {host : Context} {ext next : Extension} {o : Occurrence}
    (ok : ext.apply host o = (next, .ok ())) : next.part = ext.part := by
  cases ext with
  | mark | classify | ipMark | socket | reversePath =>
    obtain ⟨made, -, rfl⟩ := map_eq_ok_iff.mp (commit_ok ok)
    rfl
  | connTrack t =>
    obtain ⟨made, -, rfl⟩ := map_connTrack_ok ok
    rfl

theorem part_applyTokens {host : Context} {ext last : Extension} {words : List String}
    {final : Register} (accepted : ext.applyTokens host words = (last, .ok final)) :
    last.part = ext.part := by
  refine applyTokens_induction (P := fun _ _ current => current.part = ext.part) accepted rfl ?_
  intro _ _ current next o same _ _ taken
  exact (part_apply taken).trans same

end Extension

namespace Registration

private def NamesUnbroken (options : List Occurrence) : Prop :=
  ∀ o ∈ options, o.entry.name = "helper" ∨ o.entry.name = "timeout" → Unbroken o.rawArgument

variable {r : Registration} {words : List String} {ext : Extension} {final : Register}

private theorem part_create : ∀ r ∈ Registry.all, r.create.part = r.part := by
  decide

private theorem solid_name : ∀ r ∈ Registry.all, Solid r.name ∧ Solid r.part.flag := by
  decide

theorem tokens_ruleText {host : Context} (registered : r ∈ Registry.all)
    (accepted : r.create.applyTokens host words = (ext, .ok final)) :
    tokens (r.ruleText host ext) = r.part.flag :: r.name :: tokens (ext.saved host) := by
  obtain ⟨name, flag⟩ := solid_name r registered
  have part : ext.part = r.part :=
    (Extension.part_applyTokens accepted).trans (part_create r registered)
  have text : r.ruleText host ext = r.part.flag ++ render (r.name :: ext.savedWords host) := by
    simp only [ruleText, part, Extension.saved, render, String.append_assoc]
  rw [text, tokens_append_render flag, tokens_render_cons name]
  rfl

/-- Where no names are known, the saved text of an accepted rule is accepted again by the same
registration. The alias takes no words, so its text must have none. -/
theorem resaved_iff (registered : r ∈ Registry.all)
    (accepted : r.create.applyTokens .empty words = (ext, .ok final))
    (unbroken : NamesUnbroken (r.create.grammar.read words).occurrences) :
    (∃ again seen, r.create.applyTokens .empty (tokens (ext.saved .empty)) = (again, .ok seen)) ↔
      ¬ (r.family = .noTrack ∧ r.revision < 2) := by
  have blank : ∀ r ∈ Registry.all, r.family ∈ [.mark, .classify, .ipMark] →
      r.create.fresh = r.create := by decide
  have stored_case (storable : r.create.Storable)
      (known : r.family ∈ [.mark, .classify, .ipMark]) : ∃ again seen,
      r.create.applyTokens .empty (tokens (ext.saved .empty)) = (again, .ok seen) := by
    obtain ⟨kept, fresh⟩ := Extension.storable_applyTokens storable accepted
    obtain ⟨seen, back⟩ := Extension.restored_storable .empty kept
    rw [fresh, blank r registered known] at back
    exact ⟨ext, seen, back⟩
  rcases r with ⟨name, realName, part, revision, family⟩
  cases family with
  | mark =>
    exact iff_of_true (stored_case (Mark.storable_create revision) (by simp)) (by simp)
  | classify => exact iff_of_true (stored_case trivial (by simp)) (by simp)
  | ipMark =>
    exact iff_of_true (stored_case (IpMark.storable_create revision) (by simp)) (by simp)
  | connTrack =>
    obtain ⟨t, rfl, rfl, asked, -, reached⟩ :=
      ConnTrack.reached_applyTokens .empty accepted unbroken
    obtain ⟨seen, back⟩ := ConnTrack.restored_reached .empty reached asked
    exact iff_of_true ⟨_, seen, back⟩ (by simp)
  | noTrack =>
    obtain ⟨-, rfl, -⟩ := ConnTrack.applyTokens_alias_iff.mp accepted
    have text : tokens ((Extension.connTrack (ConnTrack.createAlias revision)).saved .empty) =
        if revision < 2 then ["--notrack"] else [] := ConnTrack.saved_alias .empty
    rw [text]
    constructor
    · rintro ⟨again, seen, back⟩ ⟨-, early⟩
      have none := (ConnTrack.applyTokens_alias_iff.mp back).1
      rw [if_pos early] at none
      cases none
    · intro late
      have plain : ¬ revision < 2 := fun early => late ⟨rfl, early⟩
      exact ⟨_, _, ConnTrack.applyTokens_alias_iff.mpr ⟨if_neg plain, rfl, rfl⟩⟩
  | socket =>
    obtain ⟨m, rfl, rfl, reached⟩ := SocketMatch.reached_applyTokens rfl accepted
    have numbers : Context.empty.accounts = .empty := rfl
    obtain ⟨seen, back⟩ := SocketMatch.restored numbers reached.stored
    exact iff_of_true ⟨_, seen, back⟩ (by simp)
  | reversePath =>
    obtain ⟨m, rfl, rfl, stored⟩ := ReversePath.stored_applyTokens accepted
    have sane : Context.empty.deviceGroups.Sane := DeviceGroups.sane_empty
    obtain ⟨seen, back⟩ := ReversePath.restored sane stored
    exact iff_of_true ⟨_, seen, back⟩ (by simp)

end Registration

namespace Rule

/-- Where no names are known, the text of an accepted rule has the part of the rule, its name and
the words of its record. The same revision of the name accepts these words again, unless it is the
alias in a revision whose record does not tell it apart. -/
theorem parse_ruleText {name : String} {revision : Option UInt8} {words : List String}
    {numeric : Bool} {result : RuleView}
    (parsed : parse name revision words numeric .empty = .ok result)
    (unbroken : ∀ o ∈ occurrences name revision words,
      o.entry.name = "helper" ∨ o.entry.name = "timeout" → Unbroken o.rawArgument) :
    ∃ rest, tokens result.rule = result.part.flag :: name :: rest ∧
      ((∃ again, parse name (some result.view.revision) rest numeric .empty = .ok again) ↔
        ¬ (name = "NOTRACK" ∧ result.view.revision < 2)) := by
  obtain ⟨r, ext, final, found, accepted, rfl⟩ := parse_ok parsed
  obtain ⟨registered, rfl, -⟩ := Registry.lookup_ok found
  have again := Registry.lookup_again found
  rw [occurrences_of_lookup found] at unbroken
  have named : r.name = "NOTRACK" ↔ r.family = .noTrack := ConnTrack.registered_alias r registered
  have resaved := Registration.resaved_iff registered accepted unbroken
  refine ⟨tokens (ext.saved .empty), Registration.tokens_ruleText registered accepted, ?_⟩
  rw [named]
  refine Iff.trans ?_ resaved
  constructor
  · rintro ⟨result, back⟩
    obtain ⟨s, last, seen, same, taken, -⟩ := parse_ok back
    cases again.symm.trans same
    exact ⟨last, seen, taken⟩
  · rintro ⟨last, seen, taken⟩
    exact ⟨_, parse_of_applyTokens again taken⟩

theorem parse_ruleText_zone : ∃ result again,
    parse "CT" none ["--zone=0x10", "--helper", "ftp"] false .empty = .ok result ∧
      result.rule = "-j CT --helper ftp --zone 16" ∧
      parse "CT" (some result.view.revision) ["--helper", "ftp", "--zone", "16"] false .empty =
        .ok again := by
  obtain ⟨result, parsed, text⟩ : ∃ result,
      parse "CT" none ["--zone=0x10", "--helper", "ftp"] false .empty = .ok result ∧
        result.rule = "-j CT --helper ftp --zone 16" := ⟨_, by with_unfolding_all rfl, by decide⟩
  have options : (occurrences "CT" none ["--zone=0x10", "--helper", "ftp"]).map
      (fun o => o.rawArgument) = ["0x10", "ftp"] := by with_unfolding_all rfl
  have solid : ∀ argument ∈ ["0x10", "ftp"], Unbroken argument := by decide
  obtain ⟨rest, cut, accepted⟩ := parse_ruleText parsed fun o member _ =>
    solid o.rawArgument (options ▸ List.mem_map_of_mem member)
  have words : tokens "-j CT --helper ftp --zone 16" =
      ["-j", "CT", "--helper", "ftp", "--zone", "16"] := by decide
  rw [text, words] at cut
  obtain ⟨-, named⟩ := List.cons.inj cut
  obtain ⟨-, rfl⟩ := List.cons.inj named
  obtain ⟨again, back⟩ := accepted.mpr (by simp)
  exact ⟨result, again, parsed, text, back⟩

/-- The alias takes no options, but its first record is shown with one. -/
theorem parse_alias_rejects : ∃ result,
    parse "NOTRACK" (some 0) [] false .empty = .ok result ∧
      tokens result.rule = ["-j", "NOTRACK", "--notrack"] ∧
      ∀ again, parse "NOTRACK" (some 0) ["--notrack"] false .empty ≠ .ok again := by
  obtain ⟨result, parsed, text⟩ : ∃ result, parse "NOTRACK" (some 0) [] false .empty = .ok result ∧
      result.rule = "-j NOTRACK --notrack" := ⟨_, by with_unfolding_all rfl, by decide⟩
  refine ⟨result, parsed, by rw [text]; decide, ?_⟩
  intro again accepted
  obtain ⟨r, ext, seen, found, taken, -⟩ := parse_ok accepted
  obtain ⟨member, name, -⟩ := Registry.lookup_ok found
  have family := (ConnTrack.registered_alias r member).mp name
  rw [Registration.create, family] at taken
  exact absurd (ConnTrack.applyTokens_alias_iff.mp taken).1 (by simp)

end Rule

end FilterRecord
