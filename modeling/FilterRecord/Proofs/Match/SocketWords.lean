/- Proofs/Match/SocketWords
   digest: The words that save a socket record, row by row, and what they give a fresh rule. -/

import FilterRecord.Proofs.Arguments.Writing
import FilterRecord.Proofs.Match.SocketOptions

set_option autoImplicit false
set_option relaxedAutoImplicit false

namespace FilterRecord.SocketMatch

open Text
open Options (Apart Entry Occurrence Operand Register Shows shown)
open Extension (Leads)

/-- The saved text shows an option that the revision takes, unless no names cover the states. -/
def gives (m : SocketMatch) (e : Entry) : Bool :=
  firstRevision e ≤ m.revision && m.has (flagOf e) &&
    (e.id != Id.state || (StateTable.display? m.states).isSome)

/-- The saved text inverts an option that can be, which the first one can from revision 3 on. -/
def turns (m : SocketMatch) (e : Entry) : Bool :=
  m.inverts (flagOf e) && e.invertible && (e.id != Id.transparent || 3 ≤ m.revision)

/-- The saved text shows an option that the record stores, unless it is a list without states. -/
def shows (m : SocketMatch) (e : Entry) : Bool :=
  m.has (flagOf e) && (e.id != Id.state || m.states != 0)

def stated (m : SocketMatch) (e : Entry) : Option String :=
  match e.id with
  | Id.state => StateTable.display? m.states
  | Id.user => some m.users.numbers
  | Id.group => some m.groups.numbers
  | _ => none

def withValue (m : SocketMatch) (e : Entry) (b : SocketMatch) : SocketMatch :=
  match e.id with
  | Id.state => { b with states := m.states }
  | Id.user => { b with users := m.users }
  | Id.group => { b with groups := m.groups }
  | _ => b

def rowWords (m : SocketMatch) (e : Entry) : List String :=
  shown (m.shows e) (m.inverts (flagOf e)) (("--" ++ e.name) :: (m.stated e).toList)

def restate (m : SocketMatch) : List Entry → SocketMatch → SocketMatch
  | [], b => b
  | e :: rest, b =>
    m.restate rest
      (if m.shows e then (m.withValue e b).withFlag (flagOf e) (m.inverts (flagOf e)) else b)

/-- What the saved text of a record gives again. -/
def kept (m : SocketMatch) : SocketMatch := m.restate fullTable (create m.revision)

def transparentRow : Entry := ⟨"transparent", Id.transparent, .flag, 0, true⟩

private def noWildcardRow : Entry := ⟨"nowildcard", Id.noWildcard, .flag, 0, false⟩

private def restoreMarkRow : Entry := ⟨"restore-skmark", Id.restoreMark, .flag, 0, false⟩

private def invertRow : Entry := ⟨"invert", Id.invert, .flag, 0, false⟩

def stateRow : Entry := ⟨"state", Id.state, .text, 0, true⟩

def userRow : Entry := ⟨"user", Id.user, .text, 0, true⟩

def groupRow : Entry := ⟨"group", Id.group, .text, 0, true⟩

private theorem fullTable_eq : fullTable =
    [transparentRow, noWildcardRow, restoreMarkRow, invertRow, stateRow, userRow, groupRow] := rfl

variable {m b : SocketMatch} {e : Entry}

private theorem since_and_has (stored : m.Stored) (row : e ∈ fullTable) :
    (firstRevision e ≤ m.revision && m.has (flagOf e)) = m.has (flagOf e) := by
  cases given : m.has (flagOf e) with
  | false => simp
  | true => simpa using UInt8.not_lt.mp (stored.revision e row given)

private theorem shows_of_ne (other : e.id ≠ Id.state) : m.shows e = m.has (flagOf e) := by
  have yes : (e.id != Id.state) = true := by simpa using other
  simp [shows, yes]

private theorem inverts_plain (stored : m.Stored) (row : e ∈ fullTable)
    (plain : e.invertible = false) : m.inverts (flagOf e) = false := by
  by_contra turned
  rw [Bool.not_eq_false] at turned
  exact absurd (stored.invertible e row turned) (by simp [plain])

private def givenWords (m : SocketMatch) (e : Entry) : List String :=
  shown (m.gives e) (m.turns e) (("--" ++ e.name) :: (m.stated e).toList)

private theorem gives_of_ne (other : e.id ≠ Id.state) :
    m.gives e = (firstRevision e ≤ m.revision && m.has (flagOf e)) := by
  have yes : (e.id != Id.state) = true := by simpa using other
  simp [gives, yes]

private theorem turns_plain (plain : e.invertible = false) : m.turns e = false := by
  simp [turns, plain]

private theorem turns_of_ne (invertible : e.invertible = true) (other : e.id ≠ Id.transparent) :
    m.turns e = m.inverts (flagOf e) := by
  have yes : (e.id != Id.transparent) = true := by simpa using other
  simp [turns, invertible, yes]

private theorem stateWords_eq (late : 4 ≤ m.revision) :
    m.stateWords "--" = m.givenWords stateRow := by
  have words : m.givenWords stateRow = shown (4 ≤ m.revision && m.has Flag.state &&
      (StateTable.display? m.states).isSome) (m.inverts Flag.state)
        (("--" ++ "state") :: (StateTable.display? m.states).toList) := by
    rw [givenWords, turns_of_ne rfl (by decide)]
    rfl
  rw [words, stateWords]
  cases StateTable.display? m.states with
  | some text => simp [late]
  | none => simp [shown]

private theorem lateWords_eq :
    (if 4 ≤ m.revision then
      shown (m.has Flag.invert) false ["--" ++ "invert"] ++
      m.stateWords "--" ++
      shown (m.has Flag.user) (m.inverts Flag.user)
        ["--" ++ "user", m.users.display Accounts.empty.users] ++
      shown (m.has Flag.group) (m.inverts Flag.group)
        ["--" ++ "group", m.groups.display Accounts.empty.groups]
    else []) = [invertRow, stateRow, userRow, groupRow].flatMap m.givenWords := by
  have first : ∀ e ∈ [invertRow, stateRow, userRow, groupRow], firstRevision e = 4 := by decide
  by_cases late : 4 ≤ m.revision
  · have gives {e : Entry} (row : e ∈ [invertRow, stateRow, userRow, groupRow])
        (other : e.id ≠ Id.state) : m.gives e = m.has (flagOf e) := by
      rw [gives_of_ne other, first e row, decide_eq_true late, Bool.true_and]
    have invert : m.givenWords invertRow = shown (m.has Flag.invert) false ["--" ++ "invert"] := by
      rw [givenWords, gives (by simp) (by decide), turns_plain rfl]
      rfl
    have user : m.givenWords userRow = shown (m.has Flag.user) (m.inverts Flag.user)
        ["--" ++ "user", m.users.display Accounts.empty.users] := by
      rw [givenWords, gives (by simp) (by decide), turns_of_ne rfl (by decide), Accounts.empty,
        CredentialRange.display_nil]
      rfl
    have group : m.givenWords groupRow = shown (m.has Flag.group) (m.inverts Flag.group)
        ["--" ++ "group", m.groups.display Accounts.empty.groups] := by
      rw [givenWords, gives (by simp) (by decide), turns_of_ne rfl (by decide), Accounts.empty,
        CredentialRange.display_nil]
      rfl
    rw [if_pos late, stateWords_eq late, ← invert, ← user, ← group]
    simp only [List.flatMap_cons, List.flatMap_nil, List.append_nil, List.append_assoc]
  · rw [if_neg late, eq_comm, List.flatMap_eq_nil_iff]
    intro e known
    simp [givenWords, gives, first e known, late, shown]

theorem savedWords_rows (bare : m.revision = 0 → m = create 0) :
    m.savedWords .empty = fullTable.flatMap fun e =>
      shown (m.gives e) (m.turns e) (("--" ++ e.name) :: (m.stated e).toList) := by
  by_cases zero : m.revision = 0
  · rw [bare zero]
    decide
  · have some_option : 1 ≤ m.revision := one_le_of_ne_zero zero
    have transparent : m.givenWords transparentRow = shown (m.has Flag.transparent)
        (3 ≤ m.revision && m.inverts Flag.transparent) ["--" ++ "transparent"] := by
      have first : firstRevision transparentRow = 1 := rfl
      have turned : m.turns transparentRow = (3 ≤ m.revision && m.inverts Flag.transparent) :=
        (congrArg (· && decide (3 ≤ m.revision)) (Bool.and_true _)).trans (Bool.and_comm _ _)
      rw [givenWords, gives_of_ne (by decide), first, decide_eq_true some_option, Bool.true_and,
        turned]
      rfl
    have noWildcard : m.givenWords noWildcardRow =
        shown (2 ≤ m.revision && m.has Flag.noWildcard) false ["--" ++ "nowildcard"] := by
      rw [givenWords, gives_of_ne (by decide), turns_plain rfl]
      rfl
    have restoreMark : m.givenWords restoreMarkRow =
        shown (3 ≤ m.revision && m.has Flag.restoreMark) false ["--" ++ "restore-skmark"] := by
      rw [givenWords, gives_of_ne (by decide), turns_plain rfl]
      rfl
    have rows : fullTable.flatMap m.givenWords = m.givenWords transparentRow ++
        m.givenWords noWildcardRow ++ m.givenWords restoreMarkRow ++
          [invertRow, stateRow, userRow, groupRow].flatMap m.givenWords := by
      simp only [fullTable_eq, List.flatMap_cons, List.flatMap_nil, List.append_nil,
        List.append_assoc]
    show m.savedWords .empty = fullTable.flatMap m.givenWords
    rw [rows, savedWords, ruleWords, transparent, noWildcard, restoreMark, ← lateWords_eq]

private theorem gives_stored (stored : m.Stored) (row : e ∈ fullTable) : m.gives e = m.shows e := by
  rw [gives, since_and_has stored row, shows]
  by_cases none : m.states = 0
  · simp [none, StateTable.display?_zero]
  · obtain ⟨text, display, -⟩ := StateTable.read?_display? stored.states.1 none
    simp [none, display]

private theorem turns_stored (stored : m.Stored) (row : e ∈ fullTable) :
    m.turns e = m.inverts (flagOf e) := by
  have flag : ∀ e ∈ fullTable, e.id = Id.transparent → flagOf e = Flag.transparent := by decide
  rw [turns]
  cases turned : m.inverts (flagOf e) with
  | false => simp
  | true =>
    have invertible := stored.invertible e row turned
    by_cases id : e.id = Id.transparent
    · rw [flag e row id] at turned
      simpa [invertible, id] using UInt8.not_lt.mp (stored.inversion turned)
    · simp [invertible, id]

private theorem savedWords_eq (stored : m.Stored) :
    m.savedWords .empty = fullTable.flatMap m.rowWords := by
  rw [savedWords_rows stored.fits.bare]
  refine List.flatMap_congr fun e row => ?_
  rw [gives_stored stored row, turns_stored stored row, rowWords]

private def Restates (m : SocketMatch) (e : Entry) (b : SocketMatch) : Prop :=
  ∃ operand, Shows e.kind (m.stated e) operand ∧
    ∀ o : Occurrence, o.entry = e → o.operand = operand → o.inverted = m.inverts (flagOf e) →
      b.apply .empty o = .ok ((m.withValue e b).withFlag (flagOf e) (m.inverts (flagOf e)))

private theorem restates_transparent (stored : m.Stored) (same : b.revision = m.revision) :
    m.Restates transparentRow b := by
  refine ⟨.absent, .flag, fun o entry _ turned => ?_⟩
  have id : o.entry.id = Id.transparent := by rw [entry]; rfl
  have supported : (o.inverted && decide (b.revision < 3)) = false := by
    cases inverted : o.inverted with
    | false => rfl
    | true =>
      have later := stored.inversion (turned ▸ inverted)
      rw [← same] at later
      simpa using later
  rw [← turned]
  simp only [apply, id, supported]
  rfl

private theorem restates_state (stored : m.Stored) (some_state : m.states ≠ 0)
    (later : ¬ b.revision < 4) : m.Restates stateRow b := by
  obtain ⟨text, display, read⟩ := StateTable.read?_display? stored.states.1 some_state
  have argument : m.stated stateRow = some text := display
  refine ⟨.text text, argument ▸ .text text, fun o entry operand turned => ?_⟩
  have id : o.entry.id = Id.state := by rw [entry]; rfl
  simp only [apply, applyExtended, applyState, id, later, operand, read, turned]
  rfl

private theorem restates_user (stored : m.Stored) (later : ¬ b.revision < 4) :
    m.Restates userRow b := by
  have read := CredentialRange.read?_numbers stored.users.1
  rw [← CredentialRange.ofArgument?_nil] at read
  refine ⟨.text m.users.numbers, .text _, fun o entry operand turned => ?_⟩
  have id : o.entry.id = Id.user := by rw [entry]; rfl
  simp only [apply, applyExtended, applyUser, id, later, operand, Accounts.empty, read, turned]
  rfl

private theorem restates_group (stored : m.Stored) (later : ¬ b.revision < 4) :
    m.Restates groupRow b := by
  have read := CredentialRange.read?_numbers stored.groups.1
  rw [← CredentialRange.ofArgument?_nil] at read
  refine ⟨.text m.groups.numbers, .text _, fun o entry operand turned => ?_⟩
  have id : o.entry.id = Id.group := by rw [entry]; rfl
  simp only [apply, applyExtended, applyGroup, id, later, operand, Accounts.empty, read, turned]
  rfl

private theorem restates_row (stored : m.Stored) (row : e ∈ fullTable) (given : m.shows e = true)
    (same : b.revision = m.revision) : m.Restates e b := by
  obtain ⟨has, valued⟩ := Bool.and_eq_true_iff.mp given
  have later := stored.revision e row has
  have upright := inverts_plain stored row
  rw [← same] at later
  rw [fullTable_eq] at row
  simp only [List.mem_cons, List.not_mem_nil, or_false] at row
  rcases row with rfl | rfl | rfl | rfl | rfl | rfl | rfl
  · exact restates_transparent stored same
  · refine ⟨.absent, .flag, fun o entry _ _ => ?_⟩
    have id : o.entry.id = Id.noWildcard := by rw [entry]; rfl
    have gate : ¬ b.revision < 2 := later
    rw [upright rfl]
    simp only [apply, id, gate]
    rfl
  · refine ⟨.absent, .flag, fun o entry _ _ => ?_⟩
    have id : o.entry.id = Id.restoreMark := by rw [entry]; rfl
    have gate : ¬ b.revision < 3 := later
    rw [upright rfl]
    simp only [apply, id, gate]
    rfl
  · refine ⟨.absent, .flag, fun o entry _ _ => ?_⟩
    have id : o.entry.id = Id.invert := by rw [entry]; rfl
    have gate : ¬ b.revision < 4 := later
    rw [upright rfl]
    simp only [apply, applyExtended, id, gate]
    rfl
  · have nonempty : (m.states != 0) = true := valued
    exact restates_state stored (by simpa using nonempty) later
  · exact restates_user stored later
  · exact restates_group stored later

private theorem withValue_revision (e : Entry) : (m.withValue e b).revision = b.revision := by
  unfold withValue
  split <;> rfl

private theorem restate_row_revision : (m.restate [e] b).revision = b.revision := by
  rw [restate, restate]
  split
  · exact withValue_revision e
  · rfl

private theorem restate_eq_foldl (m : SocketMatch) (rows : List Entry) (b : SocketMatch) :
    m.restate rows b = rows.foldl (fun b e => m.restate [e] b) b := by
  induction rows generalizing b with
  | nil => rfl
  | cons e rest ih => exact ih _

theorem restate_revision {rows : List Entry} :
    (m.restate rows b).revision = b.revision := by
  rw [restate_eq_foldl]
  induction rows generalizing b with
  | nil => rfl
  | cons e rest ih => exact (ih (b := m.restate [e] b)).trans restate_row_revision

private theorem rows_apart : fullTable.Pairwise Apart := by
  decide

private theorem revision_ne_zero (stored : m.Stored) (row : e ∈ fullTable)
    (given : m.has (flagOf e) = true) : m.revision ≠ 0 := by
  have positive : ∀ e ∈ fullTable, 0 < firstRevision e := by decide
  intro zero
  exact stored.revision e row given (zero ▸ positive e row)

private theorem leads_row (host : Context) (numbers : host.accounts = .empty) (stored : m.Stored)
    (row : e ∈ fullTable) {seen : Register} (free : seen.Misses (e.bit ||| e.excluded))
    (same : b.revision = m.revision) :
    Leads host (Extension.socket (create m.revision)).grammar (m.rowWords e) seen (.socket b)
      (seen.after (m.shows e) e) (.socket (m.restate [e] b)) := by
  cases given : m.shows e with
  | false =>
    have none : m.rowWords e = [] := by simp [rowWords, given, shown]
    simpa [none, Register.after, restate, given] using Extension.leads_nil
  | true =>
    have has := (Bool.and_eq_true_iff.mp given).1
    have some_revision := revision_ne_zero stored row has
    have listed : e ∈ (Extension.socket (create m.revision)).grammar.table := by
      simpa [Extension.grammar, Extension.table, table, create, some_revision] using row
    obtain ⟨operand, argument, applied⟩ := restates_row stored row given same
    have words : m.rowWords e = (if m.inverts (flagOf e) then ["!"] else []) ++
        ("--" ++ e.name) :: (m.stated e).toList := by
      rw [rowWords, given]
      rfl
    have next : m.restate [e] b = (m.withValue e b).withFlag (flagOf e) (m.inverts (flagOf e)) := by
      simp [restate, given]
    rw [words, next]
    refine Extension.leads_written (Extension.legible_grammar _) listed free
      (stored.invertible e row) argument ?_
    rw [Extension.apply, numbers, applied _ rfl rfl rfl]
    rfl

private def flagsOf (rows : List Entry) : UInt8 :=
  rows.foldr (fun e rest => flagOf e ||| rest) 0

private theorem and_flagOf (row : e ∈ fullTable) (x : UInt8) :
    x &&& flagOf e = if x &&& flagOf e != 0 then flagOf e else 0 := by
  obtain ⟨k, one⟩ := flagOf_one_bit e row
  rcases byte_and_one_bit (a := x) one with outside | inside
  · simp [outside]
  · split
    · exact inside
    · simp_all

private theorem withValue_flags (e : Entry) :
    (m.withValue e b).flags = b.flags ∧ (m.withValue e b).inverted = b.inverted := by
  unfold withValue
  split <;> exact ⟨rfl, rfl⟩

private theorem inverts_of_not_has (stored : m.Stored) {f : UInt8} (absent : m.has f = false) :
    m.inverts f = false := by
  have none : m.flags &&& f = 0 := by simpa [has] using absent
  rw [inverts, ← stored.inverted, UInt8.and_assoc, none]
  simp

private theorem restate_row_flags (stored : m.Stored) (row : e ∈ fullTable)
    (visible : m.shows e = m.has (flagOf e)) :
    (m.restate [e] b).flags = b.flags ||| (m.flags &&& flagOf e) ∧
      (m.restate [e] b).inverted = b.inverted ||| (m.inverted &&& flagOf e) := by
  have flag : m.flags &&& flagOf e = if m.has (flagOf e) then flagOf e else 0 := and_flagOf row _
  have turn : m.inverted &&& flagOf e = if m.inverts (flagOf e) then flagOf e else 0 :=
    and_flagOf row _
  obtain ⟨flags, inverted⟩ := m.withValue_flags (b := b) e
  rw [flag, turn, restate, restate, visible]
  cases given : m.has (flagOf e) with
  | false => simp [inverts_of_not_has stored given]
  | true => cases turned : m.inverts (flagOf e) <;> simp [withFlag, flags, inverted]

private theorem restate_flags (stored : m.Stored) {rows : List Entry} (within : rows ⊆ fullTable)
    (visible : ∀ e ∈ rows, m.shows e = m.has (flagOf e)) :
    (m.restate rows b).flags = b.flags ||| (m.flags &&& flagsOf rows) ∧
      (m.restate rows b).inverted = b.inverted ||| (m.inverted &&& flagsOf rows) := by
  induction rows generalizing b with
  | nil => simp [restate, flagsOf]
  | cons e rest ih =>
    have step : m.restate (e :: rest) b = m.restate rest (m.restate [e] b) := rfl
    have bits : flagsOf (e :: rest) = flagOf e ||| flagsOf rest := rfl
    obtain ⟨flags, inverted⟩ := ih (b := m.restate [e] b) (List.subset_of_cons_subset within)
      fun other known => visible other (by simp [known])
    obtain ⟨own_flags, own_inverted⟩ := restate_row_flags (b := b) stored (within (by simp))
      (visible e (by simp))
    rw [step, flags, inverted, own_flags, own_inverted, bits]
    simp only [byte_and_or_distrib, UInt8.or_assoc, and_self]

private theorem restate_values (m : SocketMatch) (revision : UInt8) :
    (m.restate fullTable (create revision)).states = (if m.shows stateRow then m.states else 0) ∧
      (m.restate fullTable (create revision)).users =
        (if m.shows userRow then m.users else ⟨0, 0⟩) ∧
      (m.restate fullTable (create revision)).groups =
        (if m.shows groupRow then m.groups else ⟨0, 0⟩) := by
  simp only [fullTable_eq, restate, withValue, transparentRow, noWildcardRow, restoreMarkRow,
    invertRow, stateRow, userRow, groupRow, apply_ite SocketMatch.states,
    apply_ite SocketMatch.users, apply_ite SocketMatch.groups, withFlag, create, ite_self]
  exact ⟨rfl, rfl, rfl⟩

private theorem ite_first {α : Type} {given : Bool} {value first : α}
    (absent : given = false → value = first) : (if given then value else first) = value := by
  cases given with
  | false => simp [absent]
  | true => rfl

private theorem eq_of_fields {c : SocketMatch} (revision : b.revision = c.revision)
    (flags : b.flags = c.flags) (inverted : b.inverted = c.inverted)
    (states : b.states = c.states) (users : b.users = c.users) (groups : b.groups = c.groups) :
    b = c := by
  cases b
  cases c
  simp_all

theorem kept_eq (stored : m.Stored) (whole : m.has Flag.state = true → m.states ≠ 0) :
    m.kept = m := by
  have state_flag : ∀ e ∈ fullTable, e.id = Id.state → flagOf e = Flag.state := by decide
  have visible : ∀ e ∈ fullTable, m.shows e = m.has (flagOf e) := by
    intro e row
    by_cases id : e.id = Id.state
    · rw [shows, state_flag e row id]
      cases given : m.has Flag.state with
      | false => rfl
      | true => simp [whole given]
    · exact shows_of_ne id
  have bits : flagsOf fullTable = 127 := by decide
  obtain ⟨flags, inverted⟩ := restate_flags (b := create m.revision) stored
    (List.Subset.refl _) visible
  obtain ⟨states, users, groups⟩ := restate_values m m.revision
  have known : m.inverted &&& 127 = m.inverted := by
    rw [← stored.inverted, UInt8.and_assoc, stored.flags]
  rw [bits, stored.flags] at flags
  rw [bits, known] at inverted
  have state : m.shows stateRow = m.has Flag.state := visible stateRow (by decide)
  have user : m.shows userRow = m.has Flag.user := visible userRow (by decide)
  have group : m.shows groupRow = m.has Flag.group := visible groupRow (by decide)
  rw [state, ite_first stored.states.2] at states
  rw [user, ite_first stored.users.2] at users
  rw [group, ite_first stored.groups.2] at groups
  have revision : (m.restate fullTable (create m.revision)).revision = m.revision :=
    restate_revision
  exact eq_of_fields revision (flags.trans UInt8.zero_or) (inverted.trans UInt8.zero_or) states
    users groups

private theorem restate_has_of_hidden {f : UInt8} {rows : List Entry}
    (hidden : ∀ e ∈ rows, m.shows e = true → flagOf e &&& f = 0) :
    (m.restate rows b).has f = b.has f := by
  induction rows generalizing b with
  | nil => rfl
  | cons e rest ih =>
    rw [restate, ih fun other known => hidden other (by simp [known])]
    cases given : m.shows e with
    | false => rfl
    | true =>
      have same : (m.withValue e b).has f = b.has f := by
        rw [has, (withValue_flags e).1, has]
      simp [has_withFlag, hidden e (by simp) given, same]

theorem kept_has_state (empty : m.states = 0) : m.kept.has Flag.state = false := by
  have other : ∀ e ∈ fullTable, e.id ≠ Id.state → flagOf e &&& Flag.state = 0 := by decide
  rw [kept, restate_has_of_hidden]
  · simp [create, has]
  · intro e row shown
    refine other e row fun id => ?_
    simp [shows, id, empty] at shown

theorem kept_eq_iff (stored : m.Stored) :
    m.kept = m ↔ ¬ (m.has Flag.state = true ∧ m.states = 0) := by
  constructor
  · rintro same ⟨given, empty⟩
    have absent := kept_has_state empty
    rw [same, given] at absent
    exact absurd absent (by decide)
  · intro whole
    exact kept_eq stored fun given empty => whole ⟨given, empty⟩

private theorem solid_stated (m : SocketMatch) (e : Entry) : ∀ w ∈ m.stated e, Solid w := by
  intro w hw
  unfold stated at hw
  split at hw
  · exact StateTable.solid_display? hw
  · cases hw
    exact CredentialRange.solid_numbers
  · cases hw
    exact CredentialRange.solid_numbers
  · exact absurd hw (by simp)

theorem solid_savedWords (bare : m.revision = 0 → m = create 0) :
    ∀ w ∈ m.savedWords .empty, Solid w := by
  have names : ∀ e ∈ fullTable, Solid ("--" ++ e.name) := by decide
  rw [savedWords_rows bare]
  intro w hw
  obtain ⟨e, row, hw⟩ := List.mem_flatMap.mp hw
  refine solid_shown (fun _ v hv => ?_) w hw
  rcases List.mem_cons.mp hv with rfl | hv
  · exact names e row
  · exact solid_stated m e v (Option.mem_toList.mp hv)

variable {host : Context}

theorem tokens_saved (numbers : host.accounts = .empty) (bare : m.revision = 0 → m = create 0) :
    tokens ((Extension.socket m).saved host) = m.savedWords .empty := by
  have words : (Extension.socket m).savedWords host = m.savedWords .empty := by
    rw [← numbers]
    rfl
  rw [Extension.saved, words]
  exact tokens_render (solid_savedWords bare)

theorem restored (numbers : host.accounts = .empty) (stored : m.Stored) :
    ∃ final, (Extension.socket (create m.revision)).applyTokens host
      (tokens ((Extension.socket m).saved host)) = (.socket m.kept, .ok final) := by
  have led := Extension.leads_rows .socket (fun b => b.revision = m.revision)
    (fun e b => m.restate [e] b)
    (fun e row seen b same free => leads_row host numbers stored row free same)
    (fun e _ b same => restate_row_revision.trans same) rows_apart
    (fun e _ => Register.empty_misses _) (create m.revision) rfl
  rw [← restate_eq_foldl] at led
  rw [tokens_saved numbers stored.fits.bare, savedWords_eq stored]
  exact ⟨_, Extension.applyTokens_of_leads led rfl⟩

end FilterRecord.SocketMatch
