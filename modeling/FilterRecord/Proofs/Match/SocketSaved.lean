/- Proofs/Match/SocketSaved
   digest: What a saved socket rule gives again, and the one option that it leaves out. -/

import FilterRecord.Proofs.Decoding
import FilterRecord.Proofs.Match.SocketWords

set_option autoImplicit false
set_option relaxedAutoImplicit false

namespace FilterRecord.SocketMatch

open Text
open Options (Entry Occurrence Register)

variable {host : Context} {m : SocketMatch}

theorem registered : ∀ r ∈ Registry.all, r.name = name → r.family = .socket := by
  decide

theorem reached_applyTokens {revision : UInt8} {words : List String} {ext : Extension}
    {final : Register} (numbers : host.accounts = .empty)
    (accepted : (Extension.socket (create revision)).applyTokens host words = (ext, .ok final)) :
    ∃ m, ext = .socket m ∧ m.revision = revision ∧
      Reached ((Extension.socket (create revision)).grammar.read words).occurrences final m := by
  refine Extension.applyTokens_induction (P := fun done seen current => ∃ m,
    current = .socket m ∧ m.revision = revision ∧ Reached done seen m) accepted
    ⟨create revision, rfl, rfl, reached_create revision⟩ ?_
  rintro done seen _ next o ⟨m, rfl, same, reached⟩ member admitted taken
  obtain ⟨made, applied, rfl⟩ := map_eq_ok_iff.mp (commit_ok taken)
  rw [numbers] at applied
  have step := step_of_apply applied
  have listed : o.entry ∈ (create revision).table := admitted.entry
  have some_option : revision ≠ 0 := by
    rintro rfl
    exact absurd listed (by simp [table, create])
  have row : o.entry ∈ fullTable := by simpa [table, create, some_option] using listed
  refine ⟨made, rfl, (revision_step step).trans same, reached_step reached step
    (same ▸ some_option) row (Register.check_eq_ok_iff.mp admitted.free) admitted.invertible ?_⟩
  intro text operand
  simp [Occurrence.rawArgument, admitted.argument_of_text operand]

/-- The conditions that a record stores are all among some options, inverted where they are. -/
def Present (m : SocketMatch) (options : List Occurrence) : Prop :=
  ∀ e ∈ fullTable, m.has (flagOf e) = true →
    ∃ o ∈ options, o.entry = e ∧ o.inverted = m.inverts (flagOf e)

variable {done done' : List Occurrence} {seen seen' : Register}

private theorem present_of_reached (reached : Reached done seen m) : m.Present done := by
  intro e row given
  obtain ⟨o, member, entry⟩ := (reached.given e row).mp given
  cases turned : m.inverts (flagOf e) with
  | true => exact (reached.turned e row).mp turned
  | false =>
    refine ⟨o, member, entry, ?_⟩
    by_contra inverted
    rw [Bool.not_eq_false] at inverted
    have set := (reached.turned e row).mpr ⟨o, member, entry, inverted⟩
    exact absurd (turned.symm.trans set) (by decide)

private theorem present_iff (reached : Reached done seen m) (again : Reached done' seen' m.kept) :
    m.Present done' ↔ m.kept = m := by
  rw [kept_eq_iff reached.stored]
  constructor
  · rintro present ⟨given, empty⟩
    have row : stateRow ∈ fullTable := by decide
    obtain ⟨o, member, entry, -⟩ := present stateRow row given
    have set : m.kept.has Flag.state = true := (again.given stateRow row).mpr ⟨o, member, entry⟩
    exact absurd ((kept_has_state empty).symm.trans set) (by decide)
  · intro whole
    have same := (kept_eq_iff reached.stored).mpr whole
    rw [same] at again
    exact present_of_reached again

private theorem pack_kept_iff (stored : m.Stored) (again : m.kept.Stored) :
    m.kept.pack = m.pack ↔ m.kept = m := by
  constructor
  · intro bytes
    have read := unpack_pack again.fits
    have revision : m.kept.revision = m.revision := restate_revision
    rw [bytes, revision, unpack_pack stored.fits] at read
    exact (Except.ok.inj read).symm
  · intro same
    rw [same]

/-- Where no account has a name, the saved text of an accepted rule is accepted at the same
revision. It gives the same record, and holds every condition that the record stores, exactly when
no option is a list without states. -/
theorem parse_saved_socket {revision : Option UInt8} {words : List String} {numeric : Bool}
    {host : Context} {result : RuleView} (numbers : host.accounts = .empty)
    (parsed : Rule.parse "socket" revision words numeric host = .ok result) :
    ∃ m again, unpack result.view.revision result.view.record = .ok m ∧
      Rule.parse "socket" (some result.view.revision) (tokens result.view.saved) numeric host =
        .ok again ∧
      (again.view.record = result.view.record ↔
        ¬ ∃ o ∈ Rule.occurrences "socket" revision words, Drops o) ∧
      (m.Present (Rule.occurrences "socket" (some result.view.revision)
          (tokens result.view.saved)) ↔
        ¬ ∃ o ∈ Rule.occurrences "socket" revision words, Drops o) := by
  obtain ⟨r, ext, final, found, accepted, rfl⟩ := Rule.parse_ok parsed
  have created : r.create = .socket (create r.revision) :=
    Registry.create_of_lookup registered found
  have found_again := Registry.lookup_again found
  rw [created] at accepted
  obtain ⟨m, rfl, same, reached⟩ := reached_applyTokens numbers accepted
  obtain ⟨seen, back⟩ := restored numbers reached.stored
  rw [same] at back
  -- The second rule keeps the same invariant, so its options are what `kept` stores.
  obtain ⟨again, same_again, -, reached_again⟩ := reached_applyTokens numbers back
  cases same_again
  rw [← created] at back
  have lost : ¬ (∃ o ∈ Rule.occurrences "socket" revision words, Drops o) ↔ m.kept = m := by
    rw [Rule.occurrences_of_lookup found, created, ← reached.lost, kept_eq_iff reached.stored]
  refine ⟨m, _, ?_, Rule.parse_of_applyTokens found_again back, ?_, ?_⟩
  · have read := unpack_pack reached.stored.fits
    rwa [same] at read
  · rw [lost]
    exact pack_kept_iff reached.stored reached_again.stored
  · have present := present_iff reached reached_again
    rw [← created, ← Rule.occurrences_of_lookup found_again] at present
    rw [lost]
    exact present

theorem parse_saved_state_user : Context.empty.accounts = .empty ∧ ∃ result m again,
    Rule.parse "socket" (some 4) ["!", "--state", "new", "--user", "0:5"] false .empty =
        .ok result ∧
      unpack result.view.revision result.view.record = .ok m ∧
      Rule.parse "socket" (some result.view.revision) (tokens result.view.saved) false .empty =
        .ok again ∧
      again.view.record = result.view.record ∧
      m.Present (Rule.occurrences "socket" (some result.view.revision)
        (tokens result.view.saved)) := by
  have numbers : Context.empty.accounts = .empty := rfl
  obtain ⟨result, parsed⟩ : ∃ result, Rule.parse "socket" (some 4)
      ["!", "--state", "new", "--user", "0:5"] false .empty = .ok result :=
    ⟨_, by with_unfolding_all rfl⟩
  obtain ⟨m, again, read, restored, exact_record, present⟩ := parse_saved_socket numbers parsed
  have options : (Rule.occurrences "socket" (some 4) ["!", "--state", "new", "--user", "0:5"]).map
      (fun o => (o.entry.name, o.rawArgument)) = [("state", "new"), ("user", "0:5")] := by
    with_unfolding_all rfl
  have states : ∀ p ∈ [("state", "new"), ("user", "0:5")], StateTable.read? p.2 ≠ some 0 := by
    decide
  have kept : ¬ ∃ o ∈ Rule.occurrences "socket" (some 4)
      ["!", "--state", "new", "--user", "0:5"], Drops o := by
    rintro ⟨o, member, -, none⟩
    refine states (o.entry.name, o.rawArgument) ?_ none
    rw [← options]
    exact List.mem_map_of_mem member
  exact ⟨numbers, result, m, again, parsed, read, restored, exact_record.mpr kept,
    present.mpr kept⟩

/-- A list without states is in the record, but not in the saved text. -/
theorem parse_saved_no_states : ∃ result again,
    Rule.parse "socket" (some 4) ["--state", ","] false .empty = .ok result ∧
      result.view.record.head? = some Flag.state ∧ result.view.saved = "" ∧
      Rule.parse "socket" (some 4) (tokens result.view.saved) false .empty = .ok again ∧
      again.view.record ≠ result.view.record := by
  obtain ⟨result, parsed, saved, flagged⟩ : ∃ result,
      Rule.parse "socket" (some 4) ["--state", ","] false .empty = .ok result ∧
        result.view.saved = "" ∧ result.view.record.head? = some Flag.state :=
    ⟨_, by with_unfolding_all rfl, by decide, by decide⟩
  obtain ⟨again, restored, plain⟩ : ∃ again,
      Rule.parse "socket" (some 4) [] false .empty = .ok again ∧
        again.view.record.head? = some 0 := ⟨_, by with_unfolding_all rfl, by decide⟩
  have none : tokens "" = [] := by decide
  refine ⟨result, again, parsed, flagged, saved, by rw [saved, none, restored], ?_⟩
  intro same
  rw [same, flagged] at plain
  exact absurd plain (by decide)

end FilterRecord.SocketMatch
