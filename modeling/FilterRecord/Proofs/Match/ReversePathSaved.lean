/- Proofs/Match/ReversePathSaved
   digest: A saved rpfilter rule gives its record again where device groups have sane names. -/

import FilterRecord.Proofs.Decoding
import FilterRecord.Proofs.Match.ReversePathWords

set_option autoImplicit false
set_option relaxedAutoImplicit false

namespace FilterRecord.ReversePath

open Text
open Options (Register)

variable {host : Context}

theorem registered : ∀ r ∈ Registry.all, r.name = name → r.family = .reversePath := by
  decide

def Kept (revision : UInt8) (ext : Extension) : Prop :=
  ∃ m, ext = .reversePath m ∧ m.revision = revision ∧ m.Stored

theorem kept_applyTokens (host : Context) (words : List String) {revision : UInt8}
    {ext : Extension} (kept : Kept revision ext) :
    Kept revision (ext.applyTokens host words).1 := by
  refine Extension.applyTokens_keeps kept fun _ o current admitted held => ?_
  obtain ⟨m, rfl, same, stored⟩ := held
  refine commit_keeps (P := Kept revision) ⟨m, rfl, same, stored⟩ fun next ok => ?_
  obtain ⟨made, applied, rfl⟩ := map_eq_ok_iff.mp ok
  have step := step_of_apply applied
  have small (n : UInt8) (operand : o.operand = .prefixLength n) : n.toNat ≤ 128 :=
    Options.prefixLength_le (operand ▸ admitted.operand)
  exact ⟨made, rfl, (revision_step step).trans same, stored_step stored step small⟩

theorem stored_applyTokens {revision : UInt8} {words : List String} {ext : Extension}
    {final : Register}
    (accepted : (Extension.reversePath (create revision)).applyTokens host words =
      (ext, .ok final)) : ∃ m, ext = .reversePath m ∧ m.revision = revision ∧ m.Stored := by
  have fresh : Kept revision (.reversePath (create revision)) :=
    ⟨create revision, rfl, rfl, stored_create revision⟩
  have kept := kept_applyTokens host words fresh
  rwa [accepted] at kept

/-- Where no two device groups share a name and no name starts with a digit, the saved text of an
accepted rule is accepted at the same revision and gives the same record. -/
theorem parse_saved_groups {revision : Option UInt8} {words : List String} {numeric : Bool}
    {result : RuleView}
    (written : host.deviceGroups = .empty ∨
      ∃ text, DeviceGroups.ofText text = .ok host.deviceGroups)
    (once : (host.deviceGroups.entries.map (·.2)).Nodup)
    (named : ∀ entry ∈ host.deviceGroups.entries, ∀ c ∈ entry.2.toList.head?, c.isDigit = false)
    (parsed : Rule.parse "rpfilter" revision words numeric host = .ok result) :
    ∃ again, Rule.parse "rpfilter" (some result.view.revision) (tokens result.view.saved) numeric
        host = .ok again ∧ again.view.record = result.view.record := by
  obtain ⟨r, ext, final, found, accepted, rfl⟩ := Rule.parse_ok parsed
  have created : r.create = .reversePath (create r.revision) :=
    Registry.create_of_lookup registered found
  have sane := DeviceGroups.sane_of_written written once named
  rw [created] at accepted
  obtain ⟨m, rfl, same, stored⟩ := stored_applyTokens accepted
  obtain ⟨seen, back⟩ := restored sane stored
  rw [same, ← created] at back
  exact ⟨_, Rule.parse_of_applyTokens (Registry.lookup_again found) back, rfl⟩

private def labHost : Context := ⟨⟨[(7, "lab")]⟩, .empty⟩

theorem parse_saved_group_lab :
    (labHost.deviceGroups = .empty ∨ ∃ text, DeviceGroups.ofText text = .ok labHost.deviceGroups) ∧
      (labHost.deviceGroups.entries.map (·.2)).Nodup ∧
      (∀ entry ∈ labHost.deviceGroups.entries, ∀ c ∈ entry.2.toList.head?, c.isDigit = false) ∧
      ∃ result again,
        Rule.parse "rpfilter" none ["!", "--prefixlen", "0x20", "--devgroup=lab"] false labHost =
          .ok result ∧
        result.view.saved = " ! --prefixlen 32 --devgroup lab" ∧
        Rule.parse "rpfilter" (some result.view.revision) (tokens result.view.saved) false labHost =
          .ok again ∧ again.view.record = result.view.record := by
  have written : DeviceGroups.ofText "7 lab\n" = .ok labHost.deviceGroups := by decide
  have once : (labHost.deviceGroups.entries.map (·.2)).Nodup := by decide
  have named : ∀ entry ∈ labHost.deviceGroups.entries, ∀ c ∈ entry.2.toList.head?,
      c.isDigit = false := by
    simp [labHost]
  obtain ⟨result, parsed, saved⟩ : ∃ result,
      Rule.parse "rpfilter" none ["!", "--prefixlen", "0x20", "--devgroup=lab"] false labHost =
        .ok result ∧ result.view.saved = " ! --prefixlen 32 --devgroup lab" :=
    ⟨_, by with_unfolding_all rfl, by decide⟩
  obtain ⟨again, restored, same⟩ := parse_saved_groups (.inr ⟨_, written⟩) once named parsed
  exact ⟨.inr ⟨_, written⟩, once, named, result, again, parsed, saved, restored, same⟩

end FilterRecord.ReversePath
