/- Proofs/Match/NormalForm
   digest: A rule that accepts the saved text of any match record takes what it shows. -/

import FilterRecord.Proofs.Arguments.Accepting
import FilterRecord.Proofs.Match.ReversePathWords
import FilterRecord.Proofs.Match.SocketWords

set_option autoImplicit false
set_option relaxedAutoImplicit false

namespace FilterRecord

open Text
open Options (Entry Occurrence Register shown)

namespace ReversePath

def showsLength (m : ReversePath) : Bool := 1 ≤ m.revision && m.has Flag.prefixLength

def showsGroup (m : ReversePath) : Bool := 1 ≤ m.revision && m.has Flag.group

private def shownFlags (m : ReversePath) : List (UInt8 × Bool) :=
  [(Flag.loose, m.has Flag.loose), (Flag.validMark, m.has Flag.validMark),
    (Flag.acceptLocal, m.has Flag.acceptLocal), (Flag.invert, m.has Flag.invert),
    (Flag.prefixLength, m.showsLength),
    (Flag.prefixLengthInverted, m.showsLength && m.has Flag.prefixLengthInverted),
    (Flag.group, m.showsGroup), (Flag.groupInverted, m.showsGroup && m.has Flag.groupInverted)]

/-- What the saved text shows of a record. -/
def visible (m : ReversePath) : ReversePath where
  revision := m.revision
  flags := flagsGiven m.shownFlags
  prefixLength := if m.showsLength then m.prefixLength else 0
  group := if m.showsGroup then m.group else .zero

private theorem has_visible (m : ReversePath) :
    ∀ row ∈ m.shownFlags, m.visible.has row.1 = row.2 := by
  have flags : m.shownFlags.map (·.1) = [1, 2, 4, 8, 16, 32, 64, 128] := rfl
  refine flagsGiven_and ?_ ?_
  · rw [flags]
    decide
  · rw [flags]
    decide

theorem savedWords_visible (groups : DeviceGroups) (m : ReversePath) :
    m.visible.savedWords groups = m.savedWords groups := by
  have flags := m.has_visible
  simp only [shownFlags, List.forall_mem_cons] at flags
  obtain ⟨loose, validMark, acceptLocal, invert, length, turnedLength, group, turnedGroup, -⟩ :=
    flags
  have revision : m.visible.revision = m.revision := rfl
  have room : (decide (1 ≤ m.revision) && m.showsLength) = m.showsLength := by
    simp [showsLength]
  have roomGroup : (decide (1 ≤ m.revision) && m.showsGroup) = m.showsGroup := by
    simp [showsGroup]
  have lengthWords : shown m.showsLength (m.showsLength && m.has Flag.prefixLengthInverted)
        ["--prefixlen", Numeral.decimal m.visible.prefixLength.toNat] =
      shown m.showsLength (m.has Flag.prefixLengthInverted)
        ["--prefixlen", Numeral.decimal m.prefixLength.toNat] := by
    cases shows : m.showsLength with
    | false => rfl
    | true => simp [visible, shows]
  have groupWords : shown m.showsGroup (m.showsGroup && m.has Flag.groupInverted)
        ["--devgroup", groups.display m.visible.group] =
      shown m.showsGroup (m.has Flag.groupInverted) ["--devgroup", groups.display m.group] := by
    cases shows : m.showsGroup with
    | false => rfl
    | true => simp [visible, shows]
  simp only [savedWords, ruleWords, loose, validMark, acceptLocal, invert, length, turnedLength,
    group, turnedGroup, revision, room, roomGroup]
  exact congrArg₂ _ (congrArg₂ _ rfl lengthWords) groupWords

private theorem condition_visible {α : Type} {m : ReversePath} {main turned : UInt8}
    {shows inverted : Bool} {value blank : α} (has_main : m.visible.has main = shows)
    (has_turned : m.visible.has turned = (shows && inverted))
    (room : shows = true → m.revision ≠ 0) :
    Condition m.visible main turned (if shows then value else blank) blank where
  stated given := by
    rw [has_turned] at given
    rw [has_main]
    exact (Bool.and_eq_true_iff.mp given).1
  room given := room (has_main ▸ given)
  unset hidden := by
    rw [← has_main, hidden]
    rfl

private theorem stored_visible {m : ReversePath}
    (small : m.showsLength = true → m.prefixLength.toNat ≤ 128) : m.visible.Stored := by
  have flags := m.has_visible
  simp only [shownFlags, List.forall_mem_cons] at flags
  obtain ⟨-, -, -, -, length, turnedLength, group, turnedGroup, -⟩ := flags
  have later (early : 1 ≤ m.revision) : m.revision ≠ 0 := by
    intro zero
    rw [zero] at early
    exact absurd early (by decide)
  refine
    { small := ?_
      length := condition_visible length turnedLength fun shows =>
        later (of_decide_eq_true (Bool.and_eq_true_iff.mp shows).1)
      group := condition_visible group turnedGroup fun shows =>
        later (of_decide_eq_true (Bool.and_eq_true_iff.mp shows).1) }
  show (if m.showsLength then m.prefixLength else 0).toNat ≤ 128
  split
  · exact small ‹_›
  · decide

private def lengthRow : Entry := ⟨"prefixlen", Id.prefixLength, .prefixLength, 0, true⟩

private theorem small_of_accepted {host : Context} {m : ReversePath} {again : Extension}
    {seen : Register} (sane : host.deviceGroups.Sane)
    (accepted : (Extension.reversePath (create m.revision)).applyTokens host
      (tokens ((Extension.reversePath m).saved host)) = (again, .ok seen))
    (shows : m.showsLength = true) : m.prefixLength.toNat ≤ 128 := by
  have cut : tokens ((Extension.reversePath m).saved host) = m.savedWords host.deviceGroups :=
    tokens_render (solid_savedWords sane m)
  have takes : ∀ e ∈ table, m.gives e = true →
      (m.stated host.deviceGroups e).isSome = e.takesArgument := by
    simp only [table, List.forall_mem_cons]
    exact ⟨fun _ => rfl, fun _ => rfl, fun _ => rfl, fun _ => rfl, fun _ => rfl, fun _ => rfl,
      by simp⟩
  rw [cut, savedWords_rows, Extension.applyTokens_eq_resume] at accepted
  have taken := Extension.taken_of_rows (fun _ => True)
    (Extension.reversePath _).legible_grammar (List.Subset.refl _) takes (fun _ _ => trivial)
    trivial accepted
  have row : lengthRow ∈ table := by decide
  have given : m.gives lengthRow = true :=
    (congrArg (· && m.has Flag.prefixLength) (Bool.or_false _)).trans shows
  obtain ⟨_, operand, _, _, -, admitted, -⟩ := taken lengthRow row given
  obtain ⟨length, bounded, -⟩ := map_eq_ok_iff.mp admitted.operand
  obtain ⟨whole, most⟩ := Options.bounded_ok bounded
  have below := m.prefixLength.toNat_lt
  rw [Numeral.whole?_decimal (by omega)] at whole
  rwa [Option.some.inj whole]

theorem visible_of_accepted {host : Context} {m : ReversePath} {again : Extension}
    {seen : Register} (sane : host.deviceGroups.Sane)
    (accepted : (Extension.reversePath (create m.revision)).applyTokens host
      (tokens ((Extension.reversePath m).saved host)) = (again, .ok seen)) :
    again = .reversePath m.visible := by
  have same : (Extension.reversePath m.visible).saved host = (Extension.reversePath m).saved host :=
    congrArg render (savedWords_visible host.deviceGroups m)
  obtain ⟨_, back⟩ := restored sane (stored_visible (small_of_accepted sane accepted))
  rw [same] at back
  exact (Prod.mk.inj (accepted.symm.trans back)).1

end ReversePath

namespace SocketMatch

variable {m : SocketMatch} {e : Entry}

/-- What the saved text shows of a record. -/
def visible (m : SocketMatch) : SocketMatch where
  revision := m.revision
  flags := flagsGiven (fullTable.map fun e => (flagOf e, m.gives e))
  inverted := flagsGiven (fullTable.map fun e => (flagOf e, m.gives e && m.turns e))
  states := if m.gives stateRow then m.states &&& StateTable.all else 0
  users := if m.gives userRow then m.users else ⟨0, 0⟩
  groups := if m.gives groupRow then m.groups else ⟨0, 0⟩

private theorem flagsGiven_row (given : Entry → Bool) (row : e ∈ fullTable) :
    (flagsGiven (fullTable.map fun e => (flagOf e, given e)) &&& flagOf e != 0) = given e := by
  have flags : (fullTable.map fun e => (flagOf e, given e)).map (·.1) = fullTable.map flagOf := by
    rw [List.map_map]
    rfl
  have apart : (fullTable.map flagOf).Pairwise fun a b => a &&& b = 0 := by decide
  have filled : 0 ∉ fullTable.map flagOf := by decide
  exact flagsGiven_and (flags ▸ apart) (flags ▸ filled) _ (List.mem_map_of_mem row)

private theorem has_visible (row : e ∈ fullTable) : m.visible.has (flagOf e) = m.gives e :=
  flagsGiven_row m.gives row

private theorem inverts_visible (row : e ∈ fullTable) :
    m.visible.inverts (flagOf e) = (m.gives e && m.turns e) :=
  flagsGiven_row (fun e => m.gives e && m.turns e) row

private theorem stated_visible (shows : m.gives e = true) (row : e ∈ fullTable) :
    m.visible.stated e = m.stated e := by
  have same : ∀ e ∈ fullTable, (e.id = Id.state → e = stateRow) ∧
      (e.id = Id.user → e = userRow) ∧ (e.id = Id.group → e = groupRow) := by decide
  obtain ⟨state, user, group⟩ := same e row
  unfold stated
  split
  · rename_i id
    rw [state id] at shows
    simp [visible, shows, StateTable.display?_and_all]
  · rename_i id
    rw [user id] at shows
    simp [visible, shows]
  · rename_i id
    rw [group id] at shows
    simp [visible, shows]
  · rfl

private theorem gives_visible (row : e ∈ fullTable) : m.visible.gives e = m.gives e := by
  rw [gives, has_visible row]
  cases shows : m.gives e with
  | false => simp
  | true =>
    obtain ⟨held, named⟩ := Bool.and_eq_true_iff.mp shows
    have early : decide (firstRevision e ≤ m.visible.revision) = true :=
      (Bool.and_eq_true_iff.mp held).1
    rw [early, Bool.true_and, Bool.true_and]
    by_cases id : e.id = Id.state
    · have same := stated_visible shows row
      simp only [stated, id] at same
      rw [same]
      exact named
    · simp [id]

private theorem turns_visible (row : e ∈ fullTable) (shows : m.gives e = true) :
    m.visible.turns e = m.turns e := by
  have revision : m.visible.revision = m.revision := rfl
  rw [turns, inverts_visible row, shows, revision, turns]
  cases m.inverts (flagOf e) <;> cases e.invertible <;> simp

theorem savedWords_visible (bare : m.revision = 0 → m = create 0) :
    m.visible.savedWords .empty = m.savedWords .empty := by
  have bare_visible : m.visible.revision = 0 → m.visible = create 0 := by
    intro zero
    rw [bare zero]
    decide
  rw [savedWords_rows bare_visible, savedWords_rows bare]
  refine List.flatMap_congr fun e row => ?_
  rw [gives_visible row]
  cases shows : m.gives e with
  | false => rfl
  | true => rw [turns_visible row shows, stated_visible shows row]

private theorem flags_visible (row : e ∈ fullTable) (shows : m.gives e = true) :
    flagOf e &&& m.visible.flags = flagOf e := by
  obtain ⟨_, bit⟩ := flagOf_one_bit e row
  rw [UInt8.and_comm]
  rcases byte_and_one_bit (a := m.visible.flags) bit with outside | inside
  · have held := has_visible (m := m) row
    rw [shows, has, outside] at held
    cases held
  · exact inside

private theorem since_of_gives (shows : m.gives e = true) : firstRevision e ≤ m.revision :=
  of_decide_eq_true (Bool.and_eq_true_iff.mp (Bool.and_eq_true_iff.mp shows).1).1

private theorem hidden_early {row : Entry} (first : firstRevision row = 4)
    (early : m.revision ≤ 3) : m.gives row = false := by
  by_contra shows
  have late := since_of_gives (Bool.not_eq_false _ ▸ shows)
  rw [first] at late
  exact absurd (UInt8.le_trans late early) (by decide)

private theorem value_visible {α : Type} {Sound : α → Prop} {shows : Bool} {value blank : α}
    (blank_sound : Sound blank) (sound : shows = true → Sound value) :
    Sound (if shows then value else blank) ∧
      (shows = false → (if shows then value else blank) = blank) := by
  cases shows with
  | false => exact ⟨blank_sound, fun _ => rfl⟩
  | true => exact ⟨sound rfl, fun hidden => absurd hidden (by decide)⟩

private theorem listed_of_gives (shows : m.gives stateRow = true) :
    StateTable.Listed (m.states &&& StateTable.all) := by
  have named : (StateTable.display? m.states).isSome = true := (Bool.and_eq_true_iff.mp shows).2
  obtain ⟨text, display⟩ := Option.isSome_iff_exists.mp named
  exact StateTable.listed_display? display

private theorem fits_visible (bare : m.revision = 0 → m = create 0) : m.visible.Fits where
  bare zero := by
    have none : m.revision = 0 := zero
    rw [bare none]
    decide
  early early := by
    have before : m.revision ≤ 3 := early
    have first : firstRevision stateRow = 4 ∧ firstRevision userRow = 4 ∧
        firstRevision groupRow = 4 := by decide
    have state := hidden_early first.1 before
    have user := hidden_early first.2.1 before
    have group := hidden_early first.2.2 before
    simp [visible, state, user, group]

private theorem stored_visible (bare : m.revision = 0 → m = create 0)
    (users : m.gives userRow = true → m.users.Ordered)
    (groups : m.gives groupRow = true → m.groups.Ordered) : m.visible.Stored := by
  have known : ∀ e ∈ fullTable, flagOf e &&& 127 = flagOf e := by decide
  have rows : stateRow ∈ fullTable ∧ userRow ∈ fullTable ∧ groupRow ∈ fullTable ∧
      transparentRow ∈ fullTable := by decide
  obtain ⟨state_row, user_row, group_row, transparent_row⟩ := rows
  have state : m.visible.has Flag.state = m.gives stateRow := has_visible state_row
  have user : m.visible.has Flag.user = m.gives userRow := has_visible user_row
  have group : m.visible.has Flag.group = m.gives groupRow := has_visible group_row
  have none_ordered : CredentialRange.Ordered ⟨0, 0⟩ := by simp [CredentialRange.Ordered]
  refine
    { flags := flagsGiven_within ?_
      inverted := flagsGiven_within ?_
      invertible := ?_
      revision := ?_
      inversion := ?_
      states := ?_
      users := ?_
      groups := ?_
      fits := fits_visible bare }
  · intro row member _
    obtain ⟨e, listed, rfl⟩ := List.mem_map.mp member
    exact known e listed
  · intro row member given
    obtain ⟨e, listed, rfl⟩ := List.mem_map.mp member
    exact flags_visible listed (Bool.and_eq_true_iff.mp given).1
  · intro e row turned
    rw [inverts_visible row, turns] at turned
    simp only [Bool.and_eq_true] at turned
    exact turned.2.1.2
  · intro e row given
    rw [has_visible row] at given
    have late : firstRevision e ≤ m.revision := since_of_gives given
    exact UInt8.not_lt.mpr late
  · intro turned
    have shown : m.visible.inverts (flagOf transparentRow) = true := turned
    rw [inverts_visible transparent_row] at shown
    have late : decide (3 ≤ m.revision) = true :=
      (Bool.and_eq_true_iff.mp (Bool.and_eq_true_iff.mp shown).2).2
    exact UInt8.not_lt.mpr (of_decide_eq_true late)
  · rw [state]
    exact value_visible (.inr (by decide)) listed_of_gives
  · rw [user]
    exact value_visible none_ordered users
  · rw [group]
    exact value_visible none_ordered groups

private theorem isSome_stated (row : e ∈ fullTable) (shows : m.gives e = true) :
    (m.stated e).isSome = e.takesArgument := by
  have flags : ∀ e ∈ fullTable, e.takesArgument =
      (e.id == Id.state || e.id == Id.user || e.id == Id.group) := by decide
  rw [flags e row, stated]
  split
  · rename_i id
    obtain ⟨-, named⟩ := Bool.and_eq_true_iff.mp shows
    simpa [id] using named
  · rename_i id
    simp [id]
  · rename_i id
    simp [id]
  · simp_all

variable {host : Context} {again : Extension} {seen : Register}

private theorem values_of_accepted (numbers : host.accounts = .empty)
    (bare : m.revision = 0 → m = create 0)
    (accepted : (Extension.socket (create m.revision)).applyTokens host (m.savedWords .empty) =
      (again, .ok seen)) (row : e ∈ fullTable) (shows : m.gives e = true) :
    ∃ b next o, Values b o next ∧ o.entry = e ∧ o.argument = m.stated e := by
  have some_revision : m.revision ≠ 0 := by
    intro zero
    have blank : ∀ e ∈ fullTable, (create 0).gives e = false := by decide
    rw [bare zero, blank e row] at shows
    cases shows
  have whole : (Extension.socket (create m.revision)).grammar.table = fullTable :=
    if_neg some_revision
  rw [savedWords_rows bare, Extension.applyTokens_eq_resume] at accepted
  have kept {current next : Extension} {o : Occurrence} (kind : ∃ b, current = .socket b)
      (ok : current.apply host o = (next, .ok ())) : ∃ b, next = .socket b := by
    obtain ⟨b, rfl⟩ := kind
    obtain ⟨made, -, rfl⟩ := map_eq_ok_iff.mp (commit_ok ok)
    exact ⟨made, rfl⟩
  obtain ⟨_, operand, _, before, ⟨b, rfl⟩, admitted, ok⟩ :=
    Extension.taken_of_rows (∃ b, · = .socket b) (Extension.legible_grammar _)
      (whole ▸ List.Subset.refl _) (fun e row => isSome_stated row) kept ⟨_, rfl⟩ accepted e row
      shows
  obtain ⟨made, applied, -⟩ := map_eq_ok_iff.mp (commit_ok ok)
  have step := step_of_apply applied
  rw [numbers] at step
  refine ⟨b, made, _, values_step step fun text operand => ?_, rfl, rfl⟩
  simp [Occurrence.rawArgument, admitted.argument_of_text operand]

theorem visible_of_accepted (numbers : host.accounts = .empty)
    (bare : m.revision = 0 → m = create 0)
    (accepted : (Extension.socket (create m.revision)).applyTokens host
      (tokens ((Extension.socket m).saved host)) = (again, .ok seen)) :
    again = .socket m.visible := by
  have same : (Extension.socket m.visible).saved host = (Extension.socket m).saved host := by
    have words := savedWords_visible bare
    rw [← numbers] at words
    exact congrArg render words
  have read := accepted
  rw [tokens_saved numbers bare] at read
  have users (shows : m.gives userRow = true) : m.users.Ordered := by
    obtain ⟨_, _, o, values, entry, argument⟩ :=
      values_of_accepted numbers bare read (by decide) shows
    have range := values.users
    rw [entry, Occurrence.rawArgument, argument] at range
    exact CredentialRange.ordered_of_numbers range
  have groups (shows : m.gives groupRow = true) : m.groups.Ordered := by
    obtain ⟨_, _, o, values, entry, argument⟩ :=
      values_of_accepted numbers bare read (by decide) shows
    have range := values.groups
    rw [entry, Occurrence.rawArgument, argument] at range
    exact CredentialRange.ordered_of_numbers range
  have stored := stored_visible bare users groups
  -- A list of states shows only where it names one, so what it shows is not empty.
  have whole : m.visible.has Flag.state = true → m.visible.states ≠ 0 := by
    intro given none
    have shows : m.gives stateRow = true := (has_visible (by decide)).symm.trans given
    have named : (StateTable.display? m.states).isSome = true := (Bool.and_eq_true_iff.mp shows).2
    have states : m.visible.states = m.states &&& StateTable.all := if_pos shows
    rw [← StateTable.display?_and_all, ← states, none, StateTable.display?_zero] at named
    cases named
  obtain ⟨_, back⟩ := restored numbers stored
  rw [same, kept_eq stored whole] at back
  exact (Prod.mk.inj (accepted.symm.trans back)).1

end SocketMatch

end FilterRecord
