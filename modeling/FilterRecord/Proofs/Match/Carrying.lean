/- Proofs/Match/Carrying
   digest: Whatever rules a match is led through, it stores only what its revision can carry. -/

import FilterRecord.Proofs.Match.ReversePathSaved
import FilterRecord.Proofs.Match.SocketOptions
import FilterRecord.Proofs.Session

set_option autoImplicit false
set_option relaxedAutoImplicit false

namespace FilterRecord

open Options (Occurrence)

/-- A value that is blank unless its flag is set. -/
def SetBy {α : Type} (flags flag : UInt8) (value blank : α) : Prop :=
  flags &&& flag = 0 → value = blank

section SetBy

variable {α : Type} {flags flag : UInt8} {value blank : α}

theorem setBy_or (held : SetBy flags flag value blank) (other : UInt8) :
    SetBy (flags ||| other) flag value blank := by
  intro unset
  rw [byte_or_and_distrib, UInt8.or_eq_zero_iff] at unset
  exact held unset.1

theorem setBy_own (one : flag ≠ 0) : SetBy (flags ||| flag) flag value blank := by
  intro unset
  rw [byte_or_and_distrib, UInt8.or_eq_zero_iff, UInt8.and_self] at unset
  exact absurd unset.2 one

end SetBy

namespace SocketMatch

def flagRoom : UInt8 → UInt8
  | 0 => 0
  | 1 => Flag.transparent
  | 2 => Flag.transparent ||| Flag.noWildcard
  | 3 => Flag.transparent ||| Flag.noWildcard ||| Flag.restoreMark
  | _ => 127

def invertibleFlags : UInt8 := Flag.transparent ||| Flag.state ||| Flag.user ||| Flag.group

/-- Flags that a revision has room for, and inversions of some of them. -/
structure FlagsFit (revision flags inverted : UInt8) : Prop where
  room : flags &&& ~~~flagRoom revision = 0
  stated : inverted &&& flags = inverted
  invertible : inverted &&& invertibleFlags = inverted
  upright : revision < 3 → inverted = 0

/-- A record that its revision can carry. -/
structure Carried (m : SocketMatch) : Prop where
  flags : FlagsFit m.revision m.flags m.inverted
  early : m.revision < 4 → m.states = 0 ∧ m.users = ⟨0, 0⟩ ∧ m.groups = ⟨0, 0⟩
  known : m.states &&& StateTable.all = m.states
  states : SetBy m.flags Flag.state m.states 0
  users : SetBy m.flags Flag.user m.users ⟨0, 0⟩
  groups : SetBy m.flags Flag.group m.groups ⟨0, 0⟩

variable {accounts : Accounts} {m next : SocketMatch} {o : Occurrence}
  {revision flags inverted flag : UInt8}

theorem carried_create (revision : UInt8) : (create revision).Carried where
  flags := ⟨by simp [create], by simp [create], by simp [create], fun _ => rfl⟩
  early := fun _ => ⟨rfl, rfl, rfl⟩
  known := by simp [create]
  states := fun _ => rfl
  users := fun _ => rfl
  groups := fun _ => rfl

private theorem flagsFit_or (turned : Bool) (fit : FlagsFit revision flags inverted)
    (room : flag &&& ~~~flagRoom revision = 0)
    (turns : turned = true → flag &&& invertibleFlags = flag ∧ ¬ revision < 3) :
    FlagsFit revision (flags ||| flag) (if turned then inverted ||| flag else inverted) := by
  have before : inverted &&& (flags ||| flag) = inverted := byte_within_or fit.stated
  have own : flag &&& (flags ||| flag) = flag := by
    rw [UInt8.or_comm]
    exact byte_within_or UInt8.and_self
  have room_for : (flags ||| flag) &&& ~~~flagRoom revision = 0 := by
    rw [byte_or_and_distrib, fit.room, room, UInt8.or_self]
  cases turned with
  | false => exact ⟨room_for, before, fit.invertible, fit.upright⟩
  | true =>
    obtain ⟨invertible, later⟩ := turns rfl
    refine ⟨room_for, ?_, ?_, fun early => absurd early later⟩
    · simp only [if_true, byte_or_and_distrib, before, own]
    · simp only [if_true, byte_or_and_distrib, fit.invertible, invertible]

private theorem flagRoom_later (revision : UInt8) :
    (revision ≠ 0 → Flag.transparent &&& ~~~flagRoom revision = 0) ∧
    (¬ revision < 2 → Flag.noWildcard &&& ~~~flagRoom revision = 0) ∧
    (¬ revision < 3 → Flag.restoreMark &&& ~~~flagRoom revision = 0) ∧
    (¬ revision < 4 → Flag.invert &&& ~~~flagRoom revision = 0 ∧
      Flag.state &&& ~~~flagRoom revision = 0 ∧ Flag.user &&& ~~~flagRoom revision = 0 ∧
      Flag.group &&& ~~~flagRoom revision = 0) := by
  unfold flagRoom
  split
  · decide
  · decide
  · decide
  · decide
  · exact ⟨fun _ => by decide, fun _ => by decide, fun _ => by decide, fun _ => by decide⟩

private theorem not_lt_three (later : ¬ revision < 4) : ¬ revision < 3 := by
  simp only [UInt8.lt_iff_toNat_lt, UInt8.reduceToNat] at later ⊢
  omega

theorem carried_step (carried : m.Carried) (step : Step accounts m o next)
    (some_option : m.revision ≠ 0) : next.Carried := by
  obtain ⟨first, second, third, fourth⟩ := flagRoom_later m.revision
  have upright {flag : UInt8} (never : false = true) :
      flag &&& invertibleFlags = flag ∧ ¬ m.revision < 3 := absurd never (by decide)
  have plain {flag : UInt8} {turned : Bool}
      (fit : FlagsFit m.revision (m.withFlag flag turned).flags (m.withFlag flag turned).inverted) :
      (m.withFlag flag turned).Carried :=
    ⟨fit, carried.early, carried.known, setBy_or carried.states flag, setBy_or carried.users flag,
      setBy_or carried.groups flag⟩
  have extended {flag : UInt8} (later : ¬ m.revision < 4)
      (room : flag &&& ~~~flagRoom m.revision = 0) (invertible : flag &&& invertibleFlags = flag) :
      FlagsFit m.revision (m.flags ||| flag)
        (if o.inverted then m.inverted ||| flag else m.inverted) :=
    flagsFit_or o.inverted carried.flags room fun _ => ⟨invertible, not_lt_three later⟩
  cases step with
  | transparent _ supported =>
    exact plain (flagsFit_or o.inverted carried.flags (first some_option)
      fun turned => ⟨by decide, supported turned⟩)
  | noWildcard _ later => exact plain (flagsFit_or false carried.flags (second later) upright)
  | restoreMark _ later => exact plain (flagsFit_or false carried.flags (third later) upright)
  | invert _ later => exact plain (flagsFit_or false carried.flags (fourth later).1 upright)
  | state _ later _ read =>
    have known := StateTable.within_all (StateTable.listed_read? read)
    exact ⟨extended later (fourth later).2.1 (by decide), fun early => absurd early later, known,
      setBy_own (by decide), setBy_or carried.users _, setBy_or carried.groups _⟩
  | user _ later =>
    exact ⟨extended later (fourth later).2.2.1 (by decide), fun early => absurd early later,
      carried.known, setBy_or carried.states _, setBy_own (by decide), setBy_or carried.groups _⟩
  | group _ later =>
    exact ⟨extended later (fourth later).2.2.2 (by decide), fun early => absurd early later,
      carried.known, setBy_or carried.states _, setBy_or carried.users _, setBy_own (by decide)⟩

def Kept (revision : UInt8) (ext : Extension) : Prop :=
  ∃ m, ext = .socket m ∧ m.revision = revision ∧ m.Carried

private theorem kept_apply {host : Context} {current : Extension} (kept : Kept revision current)
    (row : o.entry ∈ (create revision).table) : Kept revision (current.apply host o).1 := by
  obtain ⟨m, rfl, same, carried⟩ := kept
  have some_option : m.revision ≠ 0 := by
    rintro zero
    rw [same] at zero
    simp [zero, create, table] at row
  refine commit_keeps (P := Kept revision) ⟨m, rfl, same, carried⟩ fun next ok => ?_
  obtain ⟨made, applied, rfl⟩ := map_eq_ok_iff.mp ok
  have step := step_of_apply applied
  exact ⟨made, rfl, (revision_step step).trans same, carried_step carried step some_option⟩

theorem kept_applyTokens (host : Context) (words : List String) {ext : Extension}
    (kept : Kept revision ext) : Kept revision (ext.applyTokens host words).1 := by
  obtain ⟨m, rfl, rfl, carried⟩ := kept
  exact Extension.applyTokens_keeps ⟨m, rfl, rfl, carried⟩ fun _ _ _ admitted current =>
    kept_apply current admitted.entry

end SocketMatch

namespace ReversePath

def earlyFlags : UInt8 := Flag.loose ||| Flag.validMark ||| Flag.acceptLocal ||| Flag.invert

/-- A record that its revision can carry. -/
structure Carried (m : ReversePath) : Prop where
  lengthStated : m.has Flag.prefixLengthInverted = true → m.has Flag.prefixLength = true
  groupStated : m.has Flag.groupInverted = true → m.has Flag.group = true
  small : m.prefixLength.toNat ≤ 128
  length : SetBy m.flags Flag.prefixLength m.prefixLength 0
  group : SetBy m.flags Flag.group m.group .zero
  first : m.revision = 0 → m.flags &&& ~~~earlyFlags = 0 ∧ m.prefixLength = 0 ∧ m.group = .zero

variable {m : ReversePath}

private theorem has_eq_false {flag : UInt8} : m.has flag = false ↔ m.flags &&& flag = 0 := by
  simp [has]

theorem carried_of_stored (stored : m.Stored) : m.Carried where
  lengthStated := stored.length.stated
  groupStated := stored.group.stated
  small := stored.small
  length unset := stored.length.unset (has_eq_false.mpr unset)
  group unset := stored.group.unset (has_eq_false.mpr unset)
  first zero := by
    have absent {α : Type} {main turned : UInt8} {value blank : α}
        (condition : Condition m main turned value blank) :
        m.flags &&& main = 0 ∧ m.flags &&& turned = 0 ∧ value = blank := by
      obtain ⟨unset, upright, empty⟩ := condition.absent_of_first zero
      exact ⟨has_eq_false.mp unset, has_eq_false.mp upright, empty⟩
    have late : ~~~earlyFlags = (Flag.prefixLength ||| Flag.prefixLengthInverted) |||
        (Flag.group ||| Flag.groupInverted) := by decide
    obtain ⟨length, lengthTurned, noLength⟩ := absent stored.length
    obtain ⟨group, groupTurned, noGroup⟩ := absent stored.group
    refine ⟨?_, noLength, noGroup⟩
    simp only [late, byte_and_or_distrib, length, lengthTurned, group, groupTurned, UInt8.or_self]

end ReversePath

namespace Session

/-- Whatever rules a fresh match is led through in turn, accepted or refused, its record is one that
its revision can carry. -/
theorem carried_rules (host : Context) (revision : UInt8) (rules : List (List String)) :
    (∃ m, run host .socket revision (rules.map .parse) = .socket m ∧ m.revision = revision ∧
      m.Carried) ∧
    ∃ m, run host .reversePath revision (rules.map .parse) = .reversePath m ∧
      m.revision = revision ∧ m.Carried := by
  have socket : SocketMatch.Kept revision (run host .socket revision (rules.map .parse)) := by
    refine run_keeps ⟨_, rfl, rfl, SocketMatch.carried_create revision⟩
      fun step member ext kept => ?_
    obtain ⟨words, -, rfl⟩ := List.mem_map.mp member
    exact SocketMatch.kept_applyTokens host words kept
  have reversePath :
      ReversePath.Kept revision (run host .reversePath revision (rules.map .parse)) := by
    refine run_keeps ⟨_, rfl, rfl, ReversePath.stored_create revision⟩
      fun step member ext kept => ?_
    obtain ⟨words, -, rfl⟩ := List.mem_map.mp member
    exact ReversePath.kept_applyTokens host words kept
  obtain ⟨m, same, layout, stored⟩ := reversePath
  exact ⟨socket, m, same, layout, ReversePath.carried_of_stored stored⟩

end Session

end FilterRecord
