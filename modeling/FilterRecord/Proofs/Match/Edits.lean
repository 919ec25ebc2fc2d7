/- Proofs/Match/Edits
   digest: An option of a match makes one edit of every record, and edits commute. -/

import FilterRecord.Proofs.Arguments.Order
import FilterRecord.Proofs.Match.ReversePath
import FilterRecord.Proofs.Match.SocketOptions

set_option autoImplicit false
set_option relaxedAutoImplicit false

namespace FilterRecord

open Options (Apart Occurrence id_ne_of_apart)
open Extension (replace_comm)

namespace ReversePath

/-- The flags that an option sets, and the values that it replaces. -/
structure Edit where
  flags : UInt8
  prefixLength : Option UInt8
  group : Option MaskedWord

namespace Edit

def on (d : Edit) (m : ReversePath) : ReversePath :=
  { m with
    flags := m.flags ||| d.flags
    prefixLength := d.prefixLength.getD m.prefixLength
    group := d.group.getD m.group }

structure Of (d : Edit) (o : Occurrence) : Prop where
  prefixLength : d.prefixLength = none ∨ o.entry.id = Id.prefixLength
  group : d.group = none ∨ o.entry.id = Id.group

private theorem row_bits : ∀ e ∈ table, e.bit ≠ 0 := by
  decide

theorem on_comm {c d : Edit} {a b : Occurrence} (of_a : c.Of a) (of_b : d.Of b)
    (row_a : a.entry ∈ table) (apart : Apart a.entry b.entry) (m : ReversePath) :
    c.on (d.on m) = d.on (c.on m) := by
  have ids := id_ne_of_apart (row_bits _ row_a) apart
  have once {id : Nat} : ¬ (a.entry.id = id ∧ b.entry.id = id) :=
    fun both => ids (both.1.trans both.2.symm)
  have flags : m.flags ||| d.flags ||| c.flags = m.flags ||| c.flags ||| d.flags := by
    rw [UInt8.or_assoc, UInt8.or_comm d.flags, ← UInt8.or_assoc]
  have length := replace_comm of_a.prefixLength of_b.prefixLength once m.prefixLength
  have group := replace_comm of_a.group of_b.group once m.group
  simp only [on, flags, length, group]

end Edit

variable {groups : DeviceGroups} {m next : ReversePath} {o : Occurrence}

theorem exists_edit (ok : m.apply groups o = .ok next) : ∃ d : Edit, d.Of o ∧
    ∀ k : ReversePath, k.revision = m.revision → k.apply groups o = .ok (d.on k) := by
  have early : needsRevisionOne Id.loose = false ∧ needsRevisionOne Id.validMark = false ∧
      needsRevisionOne Id.acceptLocal = false ∧ needsRevisionOne Id.invert = false := by decide
  obtain ⟨loose, validMark, acceptLocal, invert⟩ := early
  have gate {k : ReversePath} (later : m.revision ≠ 0) (same : k.revision = m.revision) :
      ¬ k.revision < 1 := by
    rw [same]
    exact UInt8.not_lt.mpr (one_le_of_ne_zero later)
  cases step_of_apply ok with
  | loose id =>
    refine ⟨⟨Flag.loose, none, none⟩, ⟨.inl rfl, .inl rfl⟩, fun k _ => ?_⟩
    simp [apply, id, loose, Edit.on, withFlags]
  | validMark id =>
    refine ⟨⟨Flag.validMark, none, none⟩, ⟨.inl rfl, .inl rfl⟩, fun k _ => ?_⟩
    simp [apply, id, validMark, Edit.on, withFlags]
  | acceptLocal id =>
    refine ⟨⟨Flag.acceptLocal, none, none⟩, ⟨.inl rfl, .inl rfl⟩, fun k _ => ?_⟩
    simp [apply, id, acceptLocal, Edit.on, withFlags]
  | invert id =>
    refine ⟨⟨Flag.invert, none, none⟩, ⟨.inl rfl, .inl rfl⟩, fun k _ => ?_⟩
    simp [apply, id, invert, Edit.on, withFlags]
  | @prefixLength n id later operand =>
    refine ⟨⟨if o.inverted then Flag.prefixLength ||| Flag.prefixLengthInverted
      else Flag.prefixLength, some n, none⟩, ⟨.inr id, .inl rfl⟩, fun k same => ?_⟩
    simp only [apply, id, operand, gate later same, decide_false, Bool.and_false]
    rfl
  | @group text word id later operand read =>
    refine ⟨⟨if o.inverted then Flag.group ||| Flag.groupInverted else Flag.group, none,
      some word⟩, ⟨.inl rfl, .inr id⟩, fun k same => ?_⟩
    simp only [apply, id, operand, gate later same, decide_false, Bool.and_false, read]
    rfl

end ReversePath

namespace SocketMatch

/-- The flags that an option sets, and the values that it replaces. -/
structure Edit where
  flags : UInt8
  inverted : UInt8
  states : Option UInt32
  users : Option CredentialRange
  groups : Option CredentialRange

namespace Edit

def on (d : Edit) (m : SocketMatch) : SocketMatch :=
  { m with
    flags := m.flags ||| d.flags
    inverted := m.inverted ||| d.inverted
    states := d.states.getD m.states
    users := d.users.getD m.users
    groups := d.groups.getD m.groups }

structure Of (d : Edit) (o : Occurrence) : Prop where
  states : d.states = none ∨ o.entry.id = Id.state
  users : d.users = none ∨ o.entry.id = Id.user
  groups : d.groups = none ∨ o.entry.id = Id.group

private theorem row_bits : ∀ e ∈ fullTable, e.bit ≠ 0 := by
  decide

theorem on_comm {c d : Edit} {a b : Occurrence} (of_a : c.Of a) (of_b : d.Of b)
    (row_a : a.entry ∈ fullTable) (apart : Apart a.entry b.entry) (m : SocketMatch) :
    c.on (d.on m) = d.on (c.on m) := by
  have ids := id_ne_of_apart (row_bits _ row_a) apart
  have once {id : Nat} : ¬ (a.entry.id = id ∧ b.entry.id = id) :=
    fun both => ids (both.1.trans both.2.symm)
  have turn (x y z : UInt8) : x ||| y ||| z = x ||| z ||| y := by
    rw [UInt8.or_assoc, UInt8.or_comm y, ← UInt8.or_assoc]
  have states := replace_comm of_a.states of_b.states once m.states
  have users := replace_comm of_a.users of_b.users once m.users
  have groups := replace_comm of_a.groups of_b.groups once m.groups
  simp only [on, turn m.flags d.flags, turn m.inverted d.inverted, states, users, groups]

end Edit

theorem table_subset (m : SocketMatch) : m.table ⊆ fullTable := by
  unfold table
  split
  · simp
  · exact List.Subset.refl _

variable {accounts : Accounts} {m next : SocketMatch} {o : Occurrence}

private def flagEdit (flag : UInt8) (inverted : Bool) (states : Option UInt32)
    (users groups : Option CredentialRange) : Edit :=
  ⟨flag, if inverted then flag else 0, states, users, groups⟩

private theorem flagEdit_on {flag : UInt8} {inverted : Bool} {states : Option UInt32}
    {users groups : Option CredentialRange} (k : SocketMatch) :
    (flagEdit flag inverted states users groups).on k =
      ({ k with
        states := states.getD k.states
        users := users.getD k.users
        groups := groups.getD k.groups } : SocketMatch).withFlag flag inverted := by
  cases inverted with
  | false => simp [flagEdit, Edit.on, withFlag]
  | true => rfl

theorem exists_edit (ok : m.apply accounts o = .ok next) : ∃ d : Edit, d.Of o ∧
    ∀ k : SocketMatch, k.revision = m.revision → k.apply accounts o = .ok (d.on k) := by
  have none_set {d : Edit} (states : d.states = none) (users : d.users = none)
      (groups : d.groups = none) : d.Of o := ⟨.inl states, .inl users, .inl groups⟩
  have gate {first : UInt8} {k : SocketMatch} (later : ¬ m.revision < first)
      (same : k.revision = m.revision) : ¬ k.revision < first := by
    rwa [same]
  cases step_of_apply ok with
  | transparent id supported =>
    refine ⟨flagEdit Flag.transparent o.inverted none none none, none_set rfl rfl rfl,
      fun k same => ?_⟩
    have allowed : (o.inverted && decide (k.revision < 3)) = false := by
      cases turned : o.inverted with
      | false => rfl
      | true =>
        simpa using gate (supported turned) same
    rw [flagEdit_on]
    simp [apply, id, allowed]
  | noWildcard id later =>
    refine ⟨flagEdit Flag.noWildcard false none none none, none_set rfl rfl rfl, fun k same => ?_⟩
    rw [flagEdit_on]
    simp [apply, id, gate later same]
  | restoreMark id later =>
    refine ⟨flagEdit Flag.restoreMark false none none none, none_set rfl rfl rfl,
      fun k same => ?_⟩
    rw [flagEdit_on]
    simp [apply, id, gate later same]
  | invert id later =>
    refine ⟨flagEdit Flag.invert false none none none, none_set rfl rfl rfl, fun k same => ?_⟩
    rw [flagEdit_on]
    simp [apply, applyExtended, id, gate later same]
  | @state list states id later operand read =>
    refine ⟨flagEdit Flag.state o.inverted (some states) none none,
      ⟨.inr id, .inl rfl, .inl rfl⟩, fun k same => ?_⟩
    rw [flagEdit_on]
    simp [apply, applyExtended, applyState, id, operand, read, gate later same]
  | @user text users id later operand read =>
    refine ⟨flagEdit Flag.user o.inverted none (some users) none,
      ⟨.inl rfl, .inr id, .inl rfl⟩, fun k same => ?_⟩
    rw [flagEdit_on]
    simp [apply, applyExtended, applyUser, id, operand, read, gate later same]
  | @group text groups id later operand read =>
    refine ⟨flagEdit Flag.group o.inverted none none (some groups),
      ⟨.inl rfl, .inl rfl, .inr id⟩, fun k same => ?_⟩
    rw [flagEdit_on]
    simp [apply, applyExtended, applyGroup, id, operand, read, gate later same]

end SocketMatch

end FilterRecord
