/- Proofs/Match/SocketOptions
   digest: The conditions that a socket record stores are the options of its rule. -/

import FilterRecord.Proofs.Match.Credential
import FilterRecord.Proofs.Match.Socket
import FilterRecord.Proofs.Match.States
import FilterRecord.Proofs.Options.Register

set_option autoImplicit false
set_option relaxedAutoImplicit false

namespace FilterRecord.SocketMatch

open Options (Entry Occurrence Operand Register)

def flagOf (e : Entry) : UInt8 := 1 <<< UInt8.ofNat e.id

def firstRevision (e : Entry) : UInt8 :=
  match e.id with
  | Id.transparent => 1
  | Id.noWildcard => 2
  | Id.restoreMark => 3
  | _ => 4

theorem flags_apart : ∀ e ∈ fullTable, ∀ other ∈ fullTable,
    (flagOf e &&& flagOf other != 0) = decide (e = other) := by
  decide

theorem flagOf_one_bit : ∀ e ∈ fullTable, ∃ k : Fin 8,
    (flagOf e).toBitVec = BitVec.twoPow 8 k.val := by
  decide

private theorem flagOf_known : ∀ e ∈ fullTable, flagOf e &&& 127 = flagOf e := by
  decide

private theorem flagOf_transparent : ∀ e ∈ fullTable,
    flagOf e &&& Flag.transparent ≠ 0 → e.id = Id.transparent := by
  decide

private theorem row_of_id : ∀ e ∈ fullTable,
    (e.id = Id.state ↔ (flagOf e &&& Flag.state != 0) = true) ∧
      (e.id = Id.user ↔ (flagOf e &&& Flag.user != 0) = true) ∧
      (e.id = Id.group ↔ (flagOf e &&& Flag.group != 0) = true) := by
  decide

private theorem row_bit : ∀ e ∈ fullTable, e.bit ≠ 0 := by
  decide

variable {done : List Occurrence} {seen : Register} {m next : SocketMatch} {o : Occurrence}

theorem has_withFlag {flag f : UInt8} {inverted : Bool} :
    (m.withFlag flag inverted).has f = (m.has f || (flag &&& f != 0)) := by
  rw [Bool.eq_iff_iff]
  simp only [has, withFlag, byte_or_and_distrib, bne_iff_ne, ne_eq, UInt8.or_eq_zero_iff,
    Bool.or_eq_true]
  exact not_and_or

theorem inverts_withFlag {flag f : UInt8} {inverted : Bool} :
    (m.withFlag flag inverted).inverts f = (m.inverts f || (inverted && flag &&& f != 0)) := by
  cases inverted with
  | false => simp [inverts, withFlag]
  | true =>
    rw [Bool.eq_iff_iff]
    simp only [inverts, withFlag, if_true, byte_or_and_distrib, bne_iff_ne, ne_eq,
      UInt8.or_eq_zero_iff, Bool.or_eq_true, Bool.true_and]
    exact not_and_or

private theorem inverted_withFlag {flag : UInt8} {inverted : Bool}
    (within : m.inverted &&& m.flags = m.inverted) :
    (m.withFlag flag inverted).inverted &&& (m.withFlag flag inverted).flags =
      (m.withFlag flag inverted).inverted := by
  have before : m.inverted &&& (m.flags ||| flag) = m.inverted := byte_within_or within
  cases inverted with
  | false => simpa [withFlag] using before
  | true =>
    have own : flag &&& (m.flags ||| flag) = flag := by
      rw [UInt8.or_comm]
      exact byte_within_or UInt8.and_self
    simp only [withFlag, if_true]
    rw [byte_or_and_distrib, before, own]

private theorem flags_step {accounts : Accounts} (step : Step accounts m o next)
    (row : o.entry ∈ fullTable) (allowed : o.inverted = true → o.entry.invertible = true) :
    next.flags = (m.withFlag (flagOf o.entry) o.inverted).flags ∧
      next.inverted = (m.withFlag (flagOf o.entry) o.inverted).inverted := by
  have plain : ∀ e ∈ fullTable,
      e.id = Id.noWildcard ∨ e.id = Id.restoreMark ∨ e.id = Id.invert → e.invertible = false := by
    decide
  have upright (id : o.entry.id = Id.noWildcard ∨ o.entry.id = Id.restoreMark ∨
      o.entry.id = Id.invert) : o.inverted = false := by
    have never := plain o.entry row id
    by_contra inverted
    rw [Bool.not_eq_false] at inverted
    exact absurd (allowed inverted) (by simp [never])
  cases step with
  | transparent id | state id | user id | group id =>
    rw [flagOf, id]
    exact ⟨rfl, rfl⟩
  | noWildcard id =>
    rw [flagOf, id, upright (.inl id)]
    exact ⟨rfl, rfl⟩
  | restoreMark id =>
    rw [flagOf, id, upright (.inr (.inl id))]
    exact ⟨rfl, rfl⟩
  | invert id =>
    rw [flagOf, id, upright (.inr (.inr id))]
    exact ⟨rfl, rfl⟩

private theorem has_step {accounts : Accounts} (step : Step accounts m o next)
    (row : o.entry ∈ fullTable) (allowed : o.inverted = true → o.entry.invertible = true)
    (f : UInt8) : next.has f = (m.has f || (flagOf o.entry &&& f != 0)) := by
  rw [← has_withFlag, has, has, (flags_step step row allowed).1]

private theorem inverts_step {accounts : Accounts} (step : Step accounts m o next)
    (row : o.entry ∈ fullTable) (allowed : o.inverted = true → o.entry.invertible = true)
    (f : UInt8) : next.inverts f = (m.inverts f || (o.inverted && flagOf o.entry &&& f != 0)) := by
  rw [← inverts_withFlag, inverts, inverts, (flags_step step row allowed).2]

private theorem revision_of_step {accounts : Accounts} (step : Step accounts m o next)
    (some_option : m.revision ≠ 0) : ¬ m.revision < firstRevision o.entry ∧
      (o.entry.id = Id.transparent → o.inverted = true → ¬ m.revision < 3) := by
  cases step with
  | transparent id supported =>
    rw [firstRevision, id]
    exact ⟨UInt8.not_lt.mpr (one_le_of_ne_zero some_option), fun _ => supported⟩
  | noWildcard id later | restoreMark id later | invert id later | state id later | user id later
  | group id later =>
    rw [firstRevision, id]
    exact ⟨later, fun other => absurd other (by decide)⟩

/-- The values after an option: those it states, and else those before it. -/
structure Values (m : SocketMatch) (o : Occurrence) (next : SocketMatch) : Prop where
  states : if o.entry.id = Id.state then StateTable.read? o.rawArgument = some next.states
    else next.states = m.states
  users : if o.entry.id = Id.user then CredentialRange.read? o.rawArgument = some next.users
    else next.users = m.users
  groups : if o.entry.id = Id.group then CredentialRange.read? o.rawArgument = some next.groups
    else next.groups = m.groups

theorem values_step (step : Step .empty m o next)
    (written : ∀ text, o.operand = .text text → o.rawArgument = text) : Values m o next := by
  cases step with
  | transparent id | noWildcard id | restoreMark id | invert id =>
    constructor <;> (rw [id]; exact rfl)
  | state id _ operand read =>
    have text := written _ operand
    constructor <;> rw [id]
    · exact text ▸ read
    · exact rfl
    · exact rfl
  | user id _ operand read =>
    have text := written _ operand
    constructor <;> rw [id]
    · exact rfl
    · exact text ▸ read
    · exact rfl
  | group id _ operand read =>
    have text := written _ operand
    constructor <;> rw [id]
    · exact rfl
    · exact rfl
    · exact text ▸ read

private theorem value_step {α : Type} {sound : α → Prop} {read : String → Option α}
    {first before after : α} {id : Nat} {had has flagged : Bool}
    (row : o.entry.id = id ↔ flagged = true)
    (value : if o.entry.id = id then read o.rawArgument = some after else after = before)
    (sound_read : ∀ {s v}, read s = some v → sound v) (flag : has = (had || flagged))
    (held : sound before ∧ (had = false → before = first)) :
    sound after ∧ (has = false → after = first) := by
  split at value
  · rename_i stated
    refine ⟨sound_read value, fun unset => ?_⟩
    simp [flag, row.mp stated] at unset
  · rw [value]
    refine ⟨held.1, fun unset => held.2 ?_⟩
    rw [flag] at unset
    exact (Bool.or_eq_false_iff.mp unset).1

/-- What is true of the record of every accepted rule. -/
structure Stored (m : SocketMatch) : Prop where
  flags : m.flags &&& 127 = m.flags
  inverted : m.inverted &&& m.flags = m.inverted
  invertible : ∀ e ∈ fullTable, m.inverts (flagOf e) = true → e.invertible = true
  revision : ∀ e ∈ fullTable, m.has (flagOf e) = true → ¬ m.revision < firstRevision e
  inversion : m.inverts Flag.transparent = true → ¬ m.revision < 3
  states : StateTable.Listed m.states ∧ (m.has Flag.state = false → m.states = 0)
  users : m.users.Ordered ∧ (m.has Flag.user = false → m.users = ⟨0, 0⟩)
  groups : m.groups.Ordered ∧ (m.has Flag.group = false → m.groups = ⟨0, 0⟩)
  fits : m.Fits

theorem stored_create (revision : UInt8) : (create revision).Stored where
  flags := by simp [create]
  inverted := by simp [create]
  invertible := by simp [create, inverts]
  revision := by simp [create, has]
  inversion := by simp [create, inverts]
  states := ⟨by show StateTable.Listed 0; decide, fun _ => rfl⟩
  users := ⟨by simp [create, CredentialRange.Ordered], fun _ => rfl⟩
  groups := ⟨by simp [create, CredentialRange.Ordered], fun _ => rfl⟩
  fits := fits_create revision

private theorem stored_step (stored : m.Stored) (step : Step .empty m o next)
    (some_option : m.revision ≠ 0) (row : o.entry ∈ fullTable)
    (allowed : o.inverted = true → o.entry.invertible = true)
    (written : ∀ text, o.operand = .text text → o.rawArgument = text) : next.Stored := by
  obtain ⟨flags, inverted⟩ := flags_step step row allowed
  have has := has_step step row allowed
  have inverts := inverts_step step row allowed
  obtain ⟨later, supported⟩ := revision_of_step step some_option
  obtain ⟨states, users, groups⟩ := values_step step written
  obtain ⟨state_row, user_row, group_row⟩ := row_of_id o.entry row
  refine
    { flags := ?_
      inverted := ?_
      invertible := ?_
      revision := ?_
      inversion := ?_
      states := value_step state_row states StateTable.listed_read? (has _) stored.states
      users := value_step user_row users CredentialRange.ordered_read? (has _) stored.users
      groups := value_step group_row groups CredentialRange.ordered_read? (has _) stored.groups
      fits := fits_step stored.fits step some_option }
  · rw [flags, withFlag, byte_or_and_distrib, stored.flags, flagOf_known o.entry row]
  · rw [flags, inverted]
    exact inverted_withFlag stored.inverted
  · intro e known turned
    rw [inverts, Bool.or_eq_true, Bool.and_eq_true] at turned
    rcases turned with before | ⟨now, same⟩
    · exact stored.invertible e known before
    · rw [flags_apart _ row _ known, decide_eq_true_eq] at same
      exact same ▸ allowed now
  · intro e known given
    rw [revision_step step]
    rw [has, Bool.or_eq_true] at given
    rcases given with before | same
    · exact stored.revision e known before
    · rw [flags_apart _ row _ known, decide_eq_true_eq] at same
      exact same ▸ later
  · intro turned
    rw [revision_step step]
    rw [inverts, Bool.or_eq_true, Bool.and_eq_true, bne_iff_ne] at turned
    rcases turned with before | ⟨now, same⟩
    · exact stored.inversion before
    · exact supported (flagOf_transparent _ row same) now

/-- An option that the saved text leaves out: a list of states without any. -/
def Drops (o : Occurrence) : Prop :=
  o.entry.name = "state" ∧ StateTable.read? o.rawArgument = some 0

/-- The record of a rule after the options that have been taken. -/
structure Reached (done : List Occurrence) (seen : Register) (m : SocketMatch) : Prop where
  stored : m.Stored
  rows : ∀ o ∈ done, o.entry ∈ fullTable
  met : ∀ o ∈ done, ¬ seen.Misses o.entry.bit
  /-- The conditions that the record stores are the rule's options. -/
  given : ∀ e ∈ fullTable, m.has (flagOf e) = true ↔ ∃ o ∈ done, o.entry = e
  turned : ∀ e ∈ fullTable, m.inverts (flagOf e) = true ↔
    ∃ o ∈ done, o.entry = e ∧ o.inverted = true
  lost : m.has Flag.state = true ∧ m.states = 0 ↔ ∃ o ∈ done, Drops o

theorem reached_create (revision : UInt8) : Reached [] .empty (create revision) where
  stored := stored_create revision
  rows := by simp
  met := by simp
  given := by simp [create, has]
  turned := by simp [create, inverts]
  lost := by simp [create, has]

private theorem state_row : ∀ e ∈ fullTable, e.name = "state" ↔ e.id = Id.state := by
  decide

private theorem eq_of_state : ∀ e ∈ fullTable, ∀ other ∈ fullTable, e.id = Id.state →
    other.id = Id.state → e = other := by
  decide

private theorem exists_append {P : Occurrence → Prop} :
    (∃ p ∈ done ++ [o], P p) ↔ (∃ p ∈ done, P p) ∨ P o := by
  simp [or_and_right, exists_or]

private theorem lost_step (reached : Reached done seen m) (row : o.entry ∈ fullTable)
    (free : seen.Misses o.entry.bit)
    (has : next.has Flag.state = (m.has Flag.state || (flagOf o.entry &&& Flag.state != 0)))
    (values : Values m o next) :
    next.has Flag.state = true ∧ next.states = 0 ↔ ∃ p ∈ done ++ [o], Drops p := by
  have flagged := (row_of_id o.entry row).1
  have stated := values.states
  -- A rule has one state option at most, so where this is one, none came before it.
  by_cases id : o.entry.id = Id.state
  · rw [if_pos id] at stated
    have name := (state_row o.entry row).mpr id
    have none_before (p : Occurrence) (known : p ∈ done) : ¬ Drops p := by
      intro drops
      have there := reached.rows p known
      have same := eq_of_state p.entry there o.entry row ((state_row _ there).mp drops.1) id
      exact reached.met p known (same ▸ free)
    have set : next.has Flag.state = true := by rw [has, flagged.mp id, Bool.or_true]
    have none : ¬ ∃ p ∈ done, Drops p := fun ⟨p, known, drops⟩ => none_before p known drops
    rw [exists_append, or_iff_right none, Drops, stated, set]
    simp [name]
  · rw [if_neg id] at stated
    have unflagged : (flagOf o.entry &&& Flag.state != 0) = false := by
      rw [← Bool.not_eq_true]
      exact fun set => id (flagged.mpr set)
    have other : ¬ Drops o := fun drops => id ((state_row _ row).mp drops.1)
    rw [has, unflagged, Bool.or_false, stated, reached.lost, exists_append, or_iff_left other]

theorem reached_step (reached : Reached done seen m) (step : Step .empty m o next)
    (some_option : m.revision ≠ 0) (row : o.entry ∈ fullTable)
    (free : seen.Misses (o.entry.bit ||| o.entry.excluded))
    (allowed : o.inverted = true → o.entry.invertible = true)
    (written : ∀ text, o.operand = .text text → o.rawArgument = text) :
    Reached (done ++ [o]) (seen.add o.entry) next := by
  have has := has_step step row allowed
  have inverts := inverts_step step row allowed
  refine
    { stored := stored_step reached.stored step some_option row allowed written
      rows := ?_
      met := ?_
      given := ?_
      turned := ?_
      lost := lost_step reached row (Register.misses_or.mp free).1 (has _)
        (values_step step written) }
  · intro p member
    rcases List.mem_append.mp member with known | known
    · exact reached.rows p known
    · rwa [List.mem_singleton.mp known]
  · intro p member missed
    obtain ⟨before, own⟩ := Register.add_misses.mp missed
    rcases List.mem_append.mp member with known | known
    · exact reached.met p known before
    · rw [List.mem_singleton.mp known, UInt32.and_self] at own
      exact row_bit o.entry row own
  · intro e known
    rw [has, flags_apart _ row _ known, Bool.or_eq_true, reached.given e known, decide_eq_true_eq,
      exists_append]
  · intro e known
    rw [inverts, flags_apart _ row _ known, Bool.or_eq_true, reached.turned e known,
      Bool.and_eq_true, decide_eq_true_eq, exists_append, and_comm (a := o.inverted = true)]

end FilterRecord.SocketMatch
