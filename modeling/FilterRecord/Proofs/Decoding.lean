/- Proofs/Decoding
   digest: A rule's record, decoded, is shown as the rule was. -/

import Mathlib.Tactic.Common
import FilterRecord.Rule
import FilterRecord.Proofs.Arguments.Reading
import FilterRecord.Proofs.Match.ReversePath
import FilterRecord.Proofs.Match.Socket
import FilterRecord.Proofs.Registry
import FilterRecord.Proofs.Target.ConnTrack
import FilterRecord.Proofs.Target.Layout

set_option autoImplicit false
set_option relaxedAutoImplicit false

namespace FilterRecord

open Options (Entry Occurrence Operand)

namespace Extension

def Fits : Extension → Prop
  | mark _ | classify _ | ipMark _ => True
  | connTrack t => t.Fits
  | socket m => m.Fits
  | reversePath m => m.Fits

/-- What a record says of its extension: everything but the name the rule asked for it by. -/
def recorded : Extension → Extension
  | connTrack t => connTrack { t with viaAlias := false }
  | ext => ext

inductive Family.Owns : Family → Extension → Prop
  | mark (m : Mark) : Owns .mark (.mark m)
  | classify (c : Classify) : Owns .classify (.classify c)
  | ipMark (m : IpMark) : Owns .ipMark (.ipMark m)
  | connTrack (t : ConnTrack) : Owns .connTrack (.connTrack t)
  | noTrack (t : ConnTrack) : Owns .noTrack (.connTrack t)
  | socket (m : SocketMatch) : Owns .socket (.socket m)
  | reversePath (m : ReversePath) : Owns .reversePath (.reversePath m)

theorem owns_create (family : Family) (revision : UInt8) :
    family.Owns (family.create revision) := by
  cases family <;> constructor

theorem map_connTrack_ok {t : ConnTrack} {host : Context} {o : Occurrence} {next : Extension}
    (ok : (connTrack t).apply host o = (next, .ok ())) :
    ∃ made, t.apply o = (made, .ok ()) ∧ connTrack made = next := by
  simp only [apply] at ok
  rcases h : t.apply o with ⟨made, outcome⟩
  rw [h] at ok
  cases ok
  exact ⟨made, rfl, rfl⟩

theorem fits_create (family : Family) (revision : UInt8) : (family.create revision).Fits := by
  cases family with
  | mark | classify | ipMark => trivial
  | connTrack => exact ConnTrack.fits_create revision
  | noTrack => exact ConnTrack.fits_createAlias revision
  | socket => exact SocketMatch.fits_create revision
  | reversePath => exact ReversePath.fits_create revision

end Extension

namespace Registration

/-- An extension of a registration, in a state that its record holds whole. -/
structure Carries (r : Registration) (ext : Extension) : Prop where
  owned : r.family.Owns ext
  revision : ext.revision = r.revision
  fits : ext.Fits

theorem carries_create {r : Registration} (registered : r ∈ Registry.all) :
    r.Carries r.create where
  owned := Extension.owns_create r.family r.revision
  revision := Registry.revision_create r registered
  fits := Extension.fits_create r.family r.revision

theorem carries_apply {r : Registration} {host : Context} {ext next : Extension} {o : Occurrence}
    (carried : r.Carries ext) (known : o.entry ∈ r.create.table)
    (plain : ∀ text, o.operand = .text text → '\x00' ∉ text.toList)
    (ok : ext.apply host o = (next, .ok ())) : r.Carries next := by
  obtain ⟨owned, revision, fits⟩ := carried
  rcases r with ⟨name, realName, part, wanted, family⟩
  cases owned with
  | mark m =>
    obtain ⟨made, applied, rfl⟩ := map_eq_ok_iff.mp (commit_ok ok)
    exact ⟨.mark made, (Mark.revision_apply applied).trans revision, trivial⟩
  | classify c =>
    obtain ⟨made, applied, rfl⟩ := map_eq_ok_iff.mp (commit_ok ok)
    exact ⟨.classify made, (Classify.revision_apply applied).trans revision, trivial⟩
  | ipMark m =>
    obtain ⟨made, applied, rfl⟩ := map_eq_ok_iff.mp (commit_ok ok)
    exact ⟨.ipMark made, (IpMark.revision_apply applied).trans revision, trivial⟩
  | connTrack t =>
    obtain ⟨made, applied, rfl⟩ := Extension.map_connTrack_ok ok
    have step := ConnTrack.step_of_apply applied
    exact ⟨.connTrack made, (ConnTrack.revision_step step).trans revision,
      ConnTrack.fits_step fits step plain⟩
  | noTrack t =>
    obtain ⟨made, applied, rfl⟩ := Extension.map_connTrack_ok ok
    have step := ConnTrack.step_of_apply applied
    exact ⟨.noTrack made, (ConnTrack.revision_step step).trans revision,
      ConnTrack.fits_step fits step plain⟩
  | socket m =>
    obtain ⟨made, applied, rfl⟩ := map_eq_ok_iff.mp (commit_ok ok)
    have step := SocketMatch.step_of_apply applied
    -- The table of revision 0 is empty, so an option of the table excludes it.
    have some_option : m.revision ≠ 0 := by
      intro zero
      have bare : wanted = 0 := revision.symm.trans zero
      simp [create, Extension.Family.create, Extension.table, SocketMatch.table,
        SocketMatch.create, bare] at known
    exact ⟨.socket made, (SocketMatch.revision_step step).trans revision,
      SocketMatch.fits_step fits step some_option⟩
  | reversePath m =>
    obtain ⟨made, applied, rfl⟩ := map_eq_ok_iff.mp (commit_ok ok)
    have step := ReversePath.step_of_apply applied
    exact ⟨.reversePath made, (ReversePath.revision_step step).trans revision,
      ReversePath.fits_step fits step⟩

theorem carries_applyTokens {r : Registration} {host : Context} {tokens : List String}
    {ext : Extension} {seen : Options.Register} (registered : r ∈ Registry.all)
    (plain : ∀ t ∈ tokens, '\x00' ∉ t.toList)
    (accepted : r.create.applyTokens host tokens = (ext, .ok seen)) : r.Carries ext := by
  have start := carries_create registered
  refine Extension.applyTokens_induction (P := fun _ _ current => r.Carries current)
    accepted start ?_
  intro _ _ current next o carried member admitted applied
  refine carries_apply carried admitted.entry ?_ applied
  intro text operand zero
  have written : o.argument = some text := admitted.argument_of_text operand
  obtain ⟨t, token, spelled⟩ := Grammar.spelled_argument member written _ zero
  exact plain t token spelled

theorem unpack_pack {r : Registration} {ext : Extension} (carried : r.Carries ext) :
    r.unpack ext.pack = .ok ext.recorded := by
  obtain ⟨owned, revision, fits⟩ := carried
  rcases r with ⟨name, realName, part, wanted, family⟩
  subst revision
  cases owned with
  | mark m => exact congrArg (Except.map Extension.mark) m.unpack_pack
  | classify c => exact congrArg (Except.map Extension.classify) c.unpack_pack
  | ipMark m => exact congrArg (Except.map Extension.ipMark) m.unpack_pack
  | connTrack t => exact congrArg (Except.map Extension.connTrack) (ConnTrack.unpack_pack fits)
  | noTrack t => exact congrArg (Except.map Extension.connTrack) (ConnTrack.unpack_pack fits)
  | socket m => exact congrArg (Except.map Extension.socket) (SocketMatch.unpack_pack fits)
  | reversePath m =>
    exact congrArg (Except.map Extension.reversePath) (ReversePath.unpack_pack fits)

theorem view_recorded (r : Registration) (host : Context) (numeric : Bool) (ext : Extension) :
    r.view host numeric ext.recorded = r.view host numeric ext := by
  cases ext <;> rfl

end Registration

namespace Rule

theorem parse_ok {name : String} {revision : Option UInt8} {tokens : List String} {numeric : Bool}
    {host : Context} {result : RuleView}
    (parsed : parse name revision tokens numeric host = .ok result) :
    ∃ r ext seen, Registry.lookup name revision = .ok r ∧
      r.create.applyTokens host tokens = (ext, .ok seen) ∧
      result = ⟨r.part, r.view host numeric ext, r.ruleText host ext⟩ := by
  unfold parse at parsed
  obtain ⟨r, found, parsed⟩ := bind_eq_ok_iff.mp parsed
  rcases accepted : r.create.applyTokens host tokens with ⟨ext, outcome⟩
  rw [accepted] at parsed
  obtain ⟨seen, ended, parsed⟩ := bind_eq_ok_iff.mp parsed
  cases parsed
  exact ⟨r, ext, seen, found, by rw [accepted, ended], rfl⟩

theorem parse_of_applyTokens {name : String} {revision : Option UInt8} {tokens : List String}
    {numeric : Bool} {host : Context} {r : Registration} {ext : Extension}
    {seen : Options.Register} (found : Registry.lookup name revision = .ok r)
    (accepted : r.create.applyTokens host tokens = (ext, .ok seen)) :
    parse name revision tokens numeric host =
      .ok ⟨r.part, r.view host numeric ext, r.ruleText host ext⟩ := by
  simp only [parse, found, accepted, bind, Except.bind, pure, Except.pure]

def occurrences (name : String) (revision : Option UInt8) (tokens : List String) :
    List Occurrence :=
  match Registry.lookup name revision with
  | .ok r => (r.create.grammar.read tokens).occurrences
  | .error _ => []

theorem occurrences_of_lookup {name : String} {revision : Option UInt8} {tokens : List String}
    {r : Registration} (found : Registry.lookup name revision = .ok r) :
    occurrences name revision tokens = (r.create.grammar.read tokens).occurrences := by
  simp only [occurrences, found]

/-- What decoding shows of the record of an accepted rule, in the same host and in one without
names, is what the rule itself showed. -/
theorem describe_parse {name : String} {revision : Option UInt8} {tokens : List String}
    {numeric : Bool} {host : Context} {result : RuleView}
    (plain : ∀ t ∈ tokens, '\x00' ∉ t.toList)
    (parsed : parse name revision tokens numeric host = .ok result) :
    describe name result.view.revision result.view.record numeric host = .ok result.view ∧
      statement name result.view.revision result.view.record = .ok result.view.statement := by
  obtain ⟨r, ext, seen, found, accepted, rfl⟩ := parse_ok parsed
  have registered := (Registry.lookup_ok found).1
  have again := Registry.lookup_again found
  have decoded := Registration.unpack_pack
    (Registration.carries_applyTokens registered plain accepted)
  have shown := r.view_recorded host numeric ext
  have stated : ext.recorded.statement? = ext.statement? := by cases ext <;> rfl
  constructor
  · simp only [describe, Registration.view, again, decoded, bind, Except.bind, pure, Except.pure]
    exact congrArg Except.ok shown
  · simp only [statement, Registration.view, again, decoded, bind, Except.bind, pure, Except.pure]
    exact congrArg Except.ok stated

theorem describe_parse_helper :
    (∀ t ∈ ["--zone-orig", "mark", "--helper=ftp"], '\x00' ∉ t.toList) ∧
      ∃ result, parse "CT" none ["--zone-orig", "mark", "--helper=ftp"] false .empty = .ok result ∧
        result.view.saved = " --helper ftp --zone-orig mark" ∧
        describe "CT" result.view.revision result.view.record false .empty = .ok result.view ∧
        statement "CT" result.view.revision result.view.record = .ok result.view.statement := by
  have plain : ∀ t ∈ ["--zone-orig", "mark", "--helper=ftp"], '\x00' ∉ t.toList := by decide
  obtain ⟨result, parsed, saved⟩ : ∃ result,
      parse "CT" none ["--zone-orig", "mark", "--helper=ftp"] false .empty = .ok result ∧
        result.view.saved = " --helper ftp --zone-orig mark" :=
    ⟨_, by with_unfolding_all rfl, by decide⟩
  exact ⟨plain, result, parsed, saved, describe_parse plain parsed⟩

end Rule

end FilterRecord
