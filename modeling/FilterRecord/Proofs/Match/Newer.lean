/- Proofs/Match/Newer
   digest: What a match's revision stores, a newer one stores and shows the same. -/

import FilterRecord.Proofs.Arguments.Newer
import FilterRecord.Proofs.Decoding
import FilterRecord.Proofs.Match.Edits
import FilterRecord.Proofs.Match.ReversePathWords
import FilterRecord.Proofs.Match.SocketOptions

set_option autoImplicit false
set_option relaxedAutoImplicit false

namespace FilterRecord

open Text
open Options (Occurrence Register shown)

namespace SocketMatch

variable {accounts : Accounts} {m next : SocketMatch} {o : Occurrence} {revision : UInt8}

theorem apply_of_step (step : Step accounts m o next) : m.apply accounts o = .ok next := by
  cases step with
  | transparent id supported =>
    have room : (o.inverted && decide (m.revision < 3)) = false := by
      cases inverted : o.inverted with
      | false => rfl
      | true => simpa using supported inverted
    simp [apply, id, room]
  | noWildcard id later => simp [apply, id, later]
  | restoreMark id later => simp [apply, id, later]
  | invert id later => simp [apply, id, later, applyExtended]
  | state id later operand read =>
    simp [apply, id, later, applyExtended, operand, applyState, read]
  | user id later operand read =>
    simp [apply, id, later, applyExtended, operand, applyUser, read]
  | group id later operand read =>
    simp [apply, id, later, applyExtended, operand, applyGroup, read]

private theorem step_newer (newer : m.revision ≤ revision) (step : Step accounts m o next) :
    Step accounts { m with revision := revision } (o.forRevision revision)
      { next with revision := revision } := by
  have reaches {k : UInt8} (later : ¬ m.revision < k) : ¬ revision < k :=
    UInt8.not_lt.mpr (UInt8.le_trans (UInt8.not_lt.mp later) newer)
  cases step with
  | transparent id supported => exact .transparent id fun inverted => reaches (supported inverted)
  | noWildcard id later => exact .noWildcard id (reaches later)
  | restoreMark id later => exact .restoreMark id (reaches later)
  | invert id later => exact .invert id (reaches later)
  | state id later operand read => exact .state id (reaches later) operand read
  | user id later operand read => exact .user id (reaches later) operand read
  | group id later operand read => exact .group id (reaches later) operand read

/-- A record has no condition that its revision does not show. -/
structure Gated (m : SocketMatch) : Prop where
  second : m.revision < 2 → m.has Flag.noWildcard = false
  third : m.revision < 3 → m.has Flag.restoreMark = false ∧ m.inverts Flag.transparent = false
  fourth : m.revision < 4 → m.has Flag.invert = false ∧ m.has Flag.state = false ∧
    m.has Flag.user = false ∧ m.has Flag.group = false

private theorem gated_create (revision : UInt8) : (create revision).Gated := by
  constructor <;> simp [create, has, inverts]

private theorem gated_withFlag (gated : m.Gated) {flag : UInt8} {inverted : Bool}
    (second : m.revision < 2 → flag &&& Flag.noWildcard = 0)
    (third : m.revision < 3 → flag &&& Flag.restoreMark = 0 ∧
      (inverted && flag &&& Flag.transparent != 0) = false)
    (fourth : m.revision < 4 → flag &&& Flag.invert = 0 ∧ flag &&& Flag.state = 0 ∧
      flag &&& Flag.user = 0 ∧ flag &&& Flag.group = 0) : (m.withFlag flag inverted).Gated where
  second early := by
    rw [has_withFlag, gated.second early, second early]
    rfl
  third early := by
    obtain ⟨mark, transparent⟩ := third early
    rw [has_withFlag, inverts_withFlag, (gated.third early).1, (gated.third early).2, mark,
      transparent]
    exact ⟨rfl, rfl⟩
  fourth early := by
    obtain ⟨invert, state, user, group⟩ := fourth early
    obtain ⟨no_invert, no_state, no_user, no_group⟩ := gated.fourth early
    simp only [has_withFlag, invert, state, user, group, no_invert, no_state, no_user, no_group]
    exact ⟨rfl, rfl, rfl, rfl⟩

private theorem gated_step (gated : m.Gated) (step : Step accounts m o next) : next.Gated := by
  have last (inverted : Bool) : (inverted && Flag.state &&& Flag.transparent != 0) = false ∧
      (inverted && Flag.user &&& Flag.transparent != 0) = false ∧
      (inverted && Flag.group &&& Flag.transparent != 0) = false := by
    cases inverted <;> decide
  cases step with
  | transparent id supported =>
    refine gated_withFlag gated (fun _ => by decide) (fun early => ⟨by decide, ?_⟩)
      (fun _ => by decide)
    cases inverted : o.inverted with
    | false => rfl
    | true => exact absurd early (supported inverted)
  | noWildcard id later =>
    exact gated_withFlag gated (fun early => absurd early later) (fun _ => by decide)
      (fun _ => by decide)
  | restoreMark id later =>
    exact gated_withFlag gated (fun _ => by decide) (fun early => absurd early later)
      (fun _ => by decide)
  | invert id later =>
    exact gated_withFlag gated (fun _ => by decide) (fun _ => by decide)
      (fun early => absurd early later)
  | state id later =>
    refine gated_withFlag ?_ (fun _ => by decide) (fun _ => ⟨by decide, (last _).1⟩)
      (fun early => absurd early later)
    exact ⟨gated.second, gated.third, gated.fourth⟩
  | user id later =>
    refine gated_withFlag ?_ (fun _ => by decide) (fun _ => ⟨by decide, (last _).2.1⟩)
      (fun early => absurd early later)
    exact ⟨gated.second, gated.third, gated.fourth⟩
  | group id later =>
    refine gated_withFlag ?_ (fun _ => by decide) (fun _ => ⟨by decide, (last _).2.2⟩)
      (fun early => absurd early later)
    exact ⟨gated.second, gated.third, gated.fourth⟩

private theorem shows_newer {k : UInt8} {stored : Bool} (newer : m.revision ≤ revision)
    (gated : m.revision < k → stored = false) :
    (decide (k ≤ revision) && stored) = (decide (k ≤ m.revision) && stored) := by
  by_cases early : m.revision < k
  · rw [gated early, Bool.and_false, Bool.and_false]
  · have old := UInt8.not_lt.mp early
    simp [old, UInt8.le_trans old newer]

private def extendedWords (accounts : Accounts) (dash : String) (m : SocketMatch) : List String :=
  shown (m.has Flag.invert) false [dash ++ "invert"] ++ m.stateWords dash ++
    shown (m.has Flag.user) (m.inverts Flag.user)
      [dash ++ "user", m.users.display accounts.users] ++
    shown (m.has Flag.group) (m.inverts Flag.group)
      [dash ++ "group", m.groups.display accounts.groups]

private theorem extendedWords_early (dash : String) (gated : m.Gated) (early : m.revision < 4) :
    m.extendedWords accounts dash = [] := by
  obtain ⟨invert, state, user, group⟩ := gated.fourth early
  have states : m.stateWords dash = [] := by
    unfold stateWords
    split
    · simp [shown, state]
    · rfl
  simp [extendedWords, shown, invert, states, user, group]

private theorem extendedWords_newer (accounts : Accounts) (dash : String)
    (newer : m.revision ≤ revision) (gated : m.Gated) :
    (if 4 ≤ revision then m.extendedWords accounts dash else []) =
      if 4 ≤ m.revision then m.extendedWords accounts dash else [] := by
  by_cases early : m.revision < 4
  · rw [extendedWords_early dash gated early, if_neg (UInt8.not_le.mpr early)]
    split <;> rfl
  · have old := UInt8.not_lt.mp early
    rw [if_pos old, if_pos (UInt8.le_trans old newer)]

private theorem ruleWords_eq (dash : String) : m.ruleWords accounts dash =
    shown (m.has Flag.transparent) (3 ≤ m.revision && m.inverts Flag.transparent)
      [dash ++ "transparent"] ++
    shown (2 ≤ m.revision && m.has Flag.noWildcard) false [dash ++ "nowildcard"] ++
    shown (3 ≤ m.revision && m.has Flag.restoreMark) false [dash ++ "restore-skmark"] ++
    if 4 ≤ m.revision then m.extendedWords accounts dash else [] := rfl

private theorem ruleWords_newer (dash : String) (newer : m.revision ≤ revision) (gated : m.Gated) :
    ruleWords accounts dash { m with revision := revision } = m.ruleWords accounts dash := by
  have second := shows_newer newer gated.second
  have third := shows_newer newer fun early => (gated.third early).1
  have inversion := shows_newer newer fun early => (gated.third early).2
  have extended := extendedWords_newer accounts dash newer gated
  rw [ruleWords_eq, ruleWords_eq, ← second, ← third, ← inversion, ← extended]
  rfl

private theorem acts (host : Context) :
    Extension.Acts host .socket (Step host.accounts) where
  apply_iff := commit_eq_ok_iff.trans (map_eq_ok_iff.trans (exists_congr fun _ =>
    and_congr_left fun _ => ⟨step_of_apply, apply_of_step⟩))
  complete _ _ := rfl

theorem applyTokens_newer {host : Context} {tokens : List String} {older newer : UInt8}
    {last : Extension} {seen : Register} (le : older ≤ newer) (later : newer ≠ 0)
    (accepted : (Extension.socket (create older)).applyTokens host tokens = (last, .ok seen)) :
    ∃ made, (Extension.socket (create newer)).applyTokens host tokens = (made, .ok seen) ∧
      made.saved host = last.saved host := by
  have extended : (Extension.socket (create newer)).grammar.Extends
      (Extension.socket (create older)).grammar := by
    refine ⟨rfl, ?_⟩
    have all : (create newer).table = fullTable := if_neg later
    show (create older).table ⊆ (create newer).table
    rw [all]
    exact (create older).table_subset
  obtain ⟨m, _, -, rfl, accepted', ⟨rfl, same, gated⟩, -⟩ := Extension.applyTokens_simulates
    (acts host) extended (R := fun _ m n => n = { m with revision := newer } ∧
      m.revision = older ∧ m.Gated)
    (by
      rintro taken m _ next o ⟨rfl, same, gated⟩ - step
      exact ⟨_, step_newer (same ▸ le) step, rfl, (revision_step step).trans same,
        gated_step gated step⟩)
    ⟨rfl, rfl, gated_create older⟩ accepted
  exact ⟨_, accepted', congrArg render (ruleWords_newer "--" (same ▸ le) gated)⟩

end SocketMatch

namespace ReversePath

variable {groups : DeviceGroups} {m next : ReversePath} {o : Occurrence} {revision : UInt8}

theorem apply_of_step (step : Step groups m o next) : m.apply groups o = .ok next := by
  cases step with
  | loose id | validMark id | acceptLocal id | invert id => simp [apply, id, needsRevisionOne]
  | prefixLength id later operand => simp [apply, id, later, operand]
  | group id later operand read => simp [apply, id, later, operand, read]

private theorem step_later (later : revision ≠ 0) (step : Step groups m o next) :
    Step groups { m with revision := revision } (o.forRevision revision)
      { next with revision := revision } := by
  cases step with
  | loose id => exact .loose id
  | validMark id => exact .validMark id
  | acceptLocal id => exact .acceptLocal id
  | invert id => exact .invert id
  | prefixLength id _ operand => exact .prefixLength id later operand
  | group id _ operand read => exact .group id later operand read

private theorem ruleWords_later (dash : String) (later : revision ≠ 0) (stored : m.Stored) :
    ruleWords groups dash { m with revision := revision } = m.ruleWords groups dash := by
  have room := one_le_of_ne_zero later
  have same {flag : UInt8} (gated : m.has flag = true → m.revision ≠ 0) :
      (decide (1 ≤ revision) && m.has flag) = (decide (1 ≤ m.revision) && m.has flag) := by
    cases held : m.has flag with
    | false => simp
    | true => simp [room, one_le_of_ne_zero (gated held)]
  simp only [ruleWords, ← same stored.length.room, ← same stored.group.room]
  rfl

private theorem acts (host : Context) :
    Extension.Acts host .reversePath (Step host.deviceGroups) where
  apply_iff := commit_eq_ok_iff.trans (map_eq_ok_iff.trans (exists_congr fun _ =>
    and_congr_left fun _ => ⟨step_of_apply, apply_of_step⟩))
  complete _ _ := rfl

theorem applyTokens_newer {host : Context} {tokens : List String} {older newer : UInt8}
    {last : Extension} {seen : Register} (later : newer ≠ 0)
    (accepted : (Extension.reversePath (create older)).applyTokens host tokens = (last, .ok seen)) :
    ∃ made, (Extension.reversePath (create newer)).applyTokens host tokens = (made, .ok seen) ∧
      made.saved host = last.saved host := by
  have extended : (Extension.reversePath (create newer)).grammar.Extends
      (Extension.reversePath (create older)).grammar := ⟨rfl, List.Subset.refl _⟩
  obtain ⟨m, _, -, rfl, accepted', ⟨rfl, stored⟩, -⟩ := Extension.applyTokens_simulates
    (acts host) extended (R := fun _ m n => n = { m with revision := newer } ∧ m.Stored)
    (by
      rintro taken m _ next o ⟨rfl, stored⟩ known step
      exact ⟨_, step_later later step, rfl,
        stored_step stored step fun n operand => Options.prefixLength_le (operand ▸ known.operand)⟩)
    ⟨rfl, stored_create older⟩ accepted
  exact ⟨_, accepted', congrArg render (ruleWords_later "--" later stored)⟩

end ReversePath

end FilterRecord
