/- Proofs/NormalForm
   digest: The saved text of any record, if a rule accepts it, is what the rule saves. -/

import FilterRecord.Proofs.Match.NormalForm
import FilterRecord.Proofs.RuleText
import FilterRecord.Proofs.Target.ConnTrackNormalForm
import FilterRecord.Proofs.Target.NormalForm

set_option autoImplicit false
set_option relaxedAutoImplicit false

namespace FilterRecord.Registration

open Text
open Options (Register)

variable {r : Registration} {record : Field.Bytes} {ext again : Extension} {seen : Register}

/-- Whatever bytes a record is read from, a rule that accepts its saved text is saved as the same
text. The record itself may differ, by what its text does not show. -/
theorem saved_resaved (registered : r ∈ Registry.all) (proper : r.name ≠ "NOTRACK")
    (read : r.unpack record = .ok ext)
    (unbroken : ∀ t, ext = .connTrack t → Unbroken t.helper ∧ Unbroken t.timeout)
    (accepted : r.create.applyTokens .empty (tokens (ext.saved .empty)) = (again, .ok seen)) :
    again.saved .empty = ext.saved .empty := by
  -- A record in a state that rules reach restores itself from its text, so the rule that read the
  -- text is that record.
  have of_storable (shows : Extension) (created : r.create = shows.fresh)
      (storable : shows.Storable) (text : shows.saved .empty = ext.saved .empty) :
      again.saved .empty = ext.saved .empty := by
    obtain ⟨_, back⟩ := Extension.restored_storable .empty storable
    rw [← created, text] at back
    rw [(Prod.mk.inj (accepted.symm.trans back)).1, text]
  obtain ⟨name, realName, part, revision, family⟩ := r
  cases family with
  | mark =>
    obtain ⟨m, decoded, rfl⟩ := map_eq_ok_iff.mp read
    have created := congrArg Extension.mark (Mark.create_of_unpack decoded)
    have taken : (Extension.mark (Mark.create m.revision)).applyTokens .empty
        (tokens ((Extension.mark m).saved .empty)) = (again, .ok seen) := by
      rw [created]
      exact accepted
    exact of_storable (.mark m) created.symm (Mark.storable_of_accepted taken) rfl
  | classify =>
    obtain ⟨c, decoded, rfl⟩ := map_eq_ok_iff.mp read
    have created := congrArg Extension.classify (Classify.create_of_unpack decoded)
    exact of_storable (.classify c) created.symm trivial rfl
  | ipMark =>
    obtain ⟨m, decoded, rfl⟩ := map_eq_ok_iff.mp read
    have created := congrArg Extension.ipMark (IpMark.create_of_unpack decoded)
    have fresh : (Extension.ipMark m.visible).fresh = (Extension.ipMark m).fresh := by
      cases m <;> rfl
    have taken : (Extension.ipMark (IpMark.create m.revision)).applyTokens .empty
        (tokens ((Extension.ipMark m).saved .empty)) = (again, .ok seen) := by
      rw [created]
      exact accepted
    exact of_storable (.ipMark m.visible) (fresh.trans created).symm
      (IpMark.storable_of_accepted taken) (congrArg render m.savedWords_visible)
  | connTrack =>
    obtain ⟨t, decoded, rfl⟩ := map_eq_ok_iff.mp read
    obtain ⟨rfl, first⟩ := ConnTrack.unpack_ok decoded
    obtain ⟨helper, timeout⟩ := unbroken t rfl
    exact ConnTrack.saved_of_accepted helper timeout first accepted
  | noTrack => exact absurd ((ConnTrack.registered_alias _ registered).mpr rfl) proper
  | socket =>
    obtain ⟨m, decoded, rfl⟩ := map_eq_ok_iff.mp read
    obtain ⟨rfl, bare⟩ := SocketMatch.unpack_ok decoded
    rw [SocketMatch.visible_of_accepted rfl bare accepted]
    exact congrArg render (SocketMatch.savedWords_visible bare)
  | reversePath =>
    obtain ⟨m, decoded, rfl⟩ := map_eq_ok_iff.mp read
    cases ReversePath.revision_of_unpack decoded
    rw [ReversePath.visible_of_accepted (m := m) DeviceGroups.sane_empty accepted]
    exact congrArg render (ReversePath.savedWords_visible .empty m)

private def tracking : Registration := ⟨"CT", "CT", .target, 1, .connTrack⟩

/-- A record with both directions, an unknown flag and an unknown event, but a zone of its own. -/
theorem saved_resaved_directions :
    tracking ∈ Registry.all ∧ tracking.name ≠ "NOTRACK" ∧ ∃ ext again seen,
      tracking.unpack ([0x2c, 0, 5, 0, 1, 8, 0, 0] ++ Field.zeros 56) = .ok ext ∧
      (∀ t, ext = .connTrack t → Unbroken t.helper ∧ Unbroken t.timeout) ∧
      ext.saved .empty = " --ctevents new --zone 5" ∧
      tracking.create.applyTokens .empty (tokens (ext.saved .empty)) = (again, .ok seen) ∧
      again ≠ ext ∧ again.saved .empty = ext.saved .empty := by
  have registered : tracking ∈ Registry.all := by decide
  have proper : tracking.name ≠ "NOTRACK" := by decide
  have read : tracking.unpack ([0x2c, 0, 5, 0, 1, 8, 0, 0] ++ Field.zeros 56) =
      .ok (.connTrack ⟨1, 0x2c, 5, 0x801, 0, "", "", false⟩) := by with_unfolding_all rfl
  have unbroken : ∀ t, Extension.connTrack ⟨1, 0x2c, 5, 0x801, 0, "", "", false⟩ = .connTrack t →
      Unbroken t.helper ∧ Unbroken t.timeout := by
    rintro t ⟨⟩
    decide
  have words : tokens " --ctevents new --zone 5" = ["--ctevents", "new", "--zone", "5"] := by decide
  have text : (Extension.connTrack ⟨1, 0x2c, 5, 0x801, 0, "", "", false⟩).saved .empty =
      " --ctevents new --zone 5" := by decide
  obtain ⟨seen, taken⟩ : ∃ seen, tracking.create.applyTokens .empty
      ["--ctevents", "new", "--zone", "5"] =
        (.connTrack ⟨1, 0, 5, 1, 0, "", "", false⟩, .ok seen) := ⟨_, by with_unfolding_all rfl⟩
  rw [← words, ← text] at taken
  have same := saved_resaved registered proper read unbroken taken
  exact ⟨registered, proper, _, _, seen, read, unbroken, text, taken, by decide, same⟩

end FilterRecord.Registration
