/- Proofs/Target/Edits
   digest: An option of a target makes one edit of every record, and edits commute. -/

import FilterRecord.Proofs.Arguments.Order
import FilterRecord.Proofs.Target.ConnTrackWords
import FilterRecord.Proofs.Target.IpMark

set_option autoImplicit false
set_option relaxedAutoImplicit false

namespace FilterRecord

open Text
open Options (Apart Entry Occurrence)
open Extension (replace_comm)

namespace IpMark

/-- The values that an option replaces. In the second layout the selector is a flag that it sets. -/
structure Edit where
  selector : Option UInt8
  shift : Option UInt8
  andMask : Option UInt32
  orMask : Option UInt32
  word : Option MaskedWord

namespace Edit

def on (d : Edit) : IpMark → IpMark
  | address andMask orMask selector shift =>
    address (d.andMask.getD andMask) (d.orMask.getD orMask) (d.selector.getD selector)
      (d.shift.getD shift)
  | masked word flags shift =>
    masked (d.word.getD word) (flags ||| d.selector.getD 0) (d.shift.getD shift)

structure Of (d : Edit) (o : Occurrence) : Prop where
  selector : d.selector = none ∨ o.entry.bit &&& addressBits ≠ 0
  shift : d.shift = none ∨ o.entry.id = Id.shift
  andMask : d.andMask = none ∨ o.entry.id = Id.andMask
  orMask : d.orMask = none ∨ o.entry.id = Id.orMask
  word : d.word = none ∨ o.entry.bit &&& operationBits ≠ 0

private theorem rows_once : ∀ e ∈ table, ∀ other ∈ table, Apart e other → e.id ≠ other.id ∧
    ¬ (e.bit &&& addressBits ≠ 0 ∧ other.bit &&& addressBits ≠ 0) ∧
    ¬ (e.bit &&& operationBits ≠ 0 ∧ other.bit &&& operationBits ≠ 0) := by
  decide

theorem on_comm {c d : Edit} {a b : Occurrence} (of_a : c.Of a) (of_b : d.Of b)
    (row_a : a.entry ∈ table) (row_b : b.entry ∈ table) (apart : Apart a.entry b.entry)
    (m : IpMark) : c.on (d.on m) = d.on (c.on m) := by
  obtain ⟨ids, address, operation⟩ := rows_once _ row_a _ row_b apart
  have once {id : Nat} : ¬ (a.entry.id = id ∧ b.entry.id = id) :=
    fun both => ids (both.1.trans both.2.symm)
  have shift (z : UInt8) := replace_comm of_a.shift of_b.shift once z
  cases m with
  | address andMask orMask selector =>
    have and_mask := replace_comm of_a.andMask of_b.andMask once andMask
    have or_mask := replace_comm of_a.orMask of_b.orMask once orMask
    have select := replace_comm of_a.selector of_b.selector address selector
    simp only [on, and_mask, or_mask, select, shift]
  | masked word flags =>
    have same := replace_comm of_a.word of_b.word operation word
    have turn : flags ||| d.selector.getD 0 ||| c.selector.getD 0 =
        flags ||| c.selector.getD 0 ||| d.selector.getD 0 := by
      rw [UInt8.or_assoc, UInt8.or_comm (d.selector.getD 0), ← UInt8.or_assoc]
    simp only [on, same, turn, shift]

end Edit

variable {m next : IpMark} {o : Occurrence}

private theorem applyOperation_edit (ok : m.applyOperation o = .ok next) : ∃ d : Edit, d.Of o ∧
    ∀ k : IpMark, k.revision = m.revision → k.apply o = .ok (d.on k) := by
  unfold applyOperation at ok
  split at ok
  · cases ok
  · rename_i op stated
    split at ok
    · cases ok
    · rename_i supported
      split at ok
      · rename_i stored
        have states : o.entry.bit &&& operationBits ≠ 0 ∧ ∀ k : IpMark,
            k.apply o = k.applyOperation o := by
          unfold operation? at stated
          rw [Entry.bit]
          split at stated
          case h_6 => cases stated
          all_goals
            rename_i id _
            rw [id]
            exact ⟨by decide, fun k => by simp [apply, id]⟩
        refine ⟨⟨none, none, none, none, some op.encode⟩,
          ⟨.inl rfl, .inl rfl, .inl rfl, .inl rfl, .inr states.1⟩, fun k same => ?_⟩
        rw [states.2, applyOperation, stated]
        cases m with
        | address => cases stored
        | masked =>
          cases k with
          | address => cases same
          | masked word flags shift =>
            have known : revisions.check o.entry.name (masked word flags shift).revision op.kind =
                .ok () := supported
            simp [known, store, Edit.on]
      · cases ok

theorem exists_edit (ok : m.apply o = .ok next) : ∃ d : Edit, d.Of o ∧
    ∀ k : IpMark, k.revision = m.revision → k.apply o = .ok (d.on k) := by
  have source (k : IpMark) : k.selectSource = (⟨some 0, none, none, none, none⟩ : Edit).on k := by
    cases k <;> simp [selectSource, Edit.on]
  have destination (k : IpMark) :
      k.selectDestination = (⟨some 1, none, none, none, none⟩ : Edit).on k := by
    cases k <;> rfl
  have selects (value : UInt8) (address : o.entry.bit &&& addressBits ≠ 0)
      (made : ∀ k : IpMark,
        k.apply o = .ok ((⟨some value, none, none, none, none⟩ : Edit).on k)) :
      ∃ d : Edit, d.Of o ∧ ∀ k : IpMark, k.revision = m.revision → k.apply o = .ok (d.on k) :=
    ⟨_, ⟨.inr address, .inl rfl, .inl rfl, .inl rfl, .inl rfl⟩, fun k _ => made k⟩
  unfold apply at ok
  split at ok
  · rename_i which id operand
    have address : o.entry.bit &&& addressBits ≠ 0 := by
      rw [Entry.bit, id]
      decide
    split at ok
    · rename_i src
      refine selects 0 address fun k => ?_
      rw [← source]
      simp [apply, id, operand, src]
    · rename_i other
      split at ok
      · rename_i dst
        refine selects 1 address fun k => ?_
        rw [← destination]
        simp [apply, id, operand, dst]
      · cases ok
  · rename_i id
    refine selects 0 (by rw [Entry.bit, id]; decide) fun k => ?_
    rw [← source]
    simp [apply, id]
  · rename_i id
    refine selects 1 (by rw [Entry.bit, id]; decide) fun k => ?_
    rw [← destination]
    simp [apply, id]
  · rename_i shift id operand
    refine ⟨⟨none, some shift, none, none, none⟩,
      ⟨.inl rfl, .inr id, .inl rfl, .inl rfl, .inl rfl⟩, fun k _ => ?_⟩
    cases k <;> simp [apply, id, operand, withShift, Edit.on]
  · rename_i bits id operand
    cases m with
    | address =>
      refine ⟨⟨none, none, some bits, none, none⟩,
        ⟨.inl rfl, .inl rfl, .inr id, .inl rfl, .inl rfl⟩, fun k same => ?_⟩
      cases k with
      | address => simp [apply, id, operand, Edit.on]
      | masked => cases same
    | masked => cases ok
  · rename_i bits id operand
    cases m with
    | address =>
      refine ⟨⟨none, none, none, some bits, none⟩,
        ⟨.inl rfl, .inl rfl, .inl rfl, .inr id, .inl rfl⟩, fun k same => ?_⟩
      cases k with
      | address => simp [apply, id, operand, Edit.on]
      | masked => cases same
    | masked => cases ok
  · exact applyOperation_edit ok

end IpMark

namespace ConnTrack

/-- The flags that an option sets, and the values that it replaces. -/
structure Edit where
  flags : UInt16
  zone : Option UInt16
  events : Option UInt32
  expectations : Option UInt32
  helper : Option String
  timeout : Option String

namespace Edit

def on (d : Edit) (t : ConnTrack) : ConnTrack :=
  { t with
    flags := t.flags ||| d.flags
    zone := d.zone.getD t.zone
    events := d.events.getD t.events
    expectations := d.expectations.getD t.expectations
    helper := d.helper.getD t.helper
    timeout := d.timeout.getD t.timeout }

structure Of (d : Edit) (o : Occurrence) : Prop where
  zone : d.zone = none ∨ direction? o.entry.id ≠ none
  events : d.events = none ∨ o.entry.id = Id.events
  expectations : d.expectations = none ∨ o.entry.id = Id.expectations
  helper : d.helper = none ∨ o.entry.id = Id.helper
  timeout : d.timeout = none ∨ o.entry.id = Id.timeout

private theorem rows_once : ∀ e ∈ fullTable, ∀ other ∈ fullTable, Apart e other →
    e.id ≠ other.id ∧ ¬ (direction? e.id ≠ none ∧ direction? other.id ≠ none) := by
  decide

theorem on_comm {c d : Edit} {a b : Occurrence} (of_a : c.Of a) (of_b : d.Of b)
    (row_a : a.entry ∈ fullTable) (row_b : b.entry ∈ fullTable) (apart : Apart a.entry b.entry)
    (t : ConnTrack) : c.on (d.on t) = d.on (c.on t) := by
  obtain ⟨ids, zones⟩ := rows_once _ row_a _ row_b apart
  have once {id : Nat} : ¬ (a.entry.id = id ∧ b.entry.id = id) :=
    fun both => ids (both.1.trans both.2.symm)
  have flags : t.flags ||| d.flags ||| c.flags = t.flags ||| c.flags ||| d.flags := by
    rw [UInt16.or_assoc, UInt16.or_comm d.flags, ← UInt16.or_assoc]
  have zone := replace_comm of_a.zone of_b.zone zones t.zone
  have events := replace_comm of_a.events of_b.events once t.events
  have expectations := replace_comm of_a.expectations of_b.expectations once t.expectations
  have helper := replace_comm of_a.helper of_b.helper once t.helper
  have timeout := replace_comm of_a.timeout of_b.timeout once t.timeout
  simp only [on, flags, zone, events, expectations, helper, timeout]

end Edit

theorem table_subset (t : ConnTrack) : t.table ⊆ fullTable := by
  unfold table
  split
  · simp
  · exact List.Subset.refl _

variable {t next : ConnTrack} {o : Occurrence}

private theorem zone_edit {direction : UInt16} (flags zone : UInt16)
    (stated : direction? o.entry.id = some direction) (room : direction ≠ 0 → t.revision ≠ 0)
    (applied : ∀ k : ConnTrack, applyZone direction k o =
      ({ k with flags := k.flags ||| flags, zone := zone }, .ok ())) :
    ∃ d : Edit, d.Of o ∧
      ∀ k : ConnTrack, k.revision = t.revision → k.apply o = (d.on k, .ok ()) := by
  refine ⟨⟨flags, some zone, none, none, none, none⟩,
    ⟨.inr (by simp [stated]), .inl rfl, .inl rfl, .inl rfl, .inl rfl⟩, fun k same => ?_⟩
  rw [← same] at room
  rw [apply_zone stated room, applied k]
  rfl

theorem exists_edit (ok : t.apply o = (next, .ok ())) : ∃ d : Edit, d.Of o ∧
    ∀ k : ConnTrack, k.revision = t.revision → k.apply o = (d.on k, .ok ()) := by
  cases step_of_apply ok with
  | notrack id =>
    have early : needsRevisionOne Id.notrack = false := rfl
    refine ⟨⟨Flag.untracked, none, none, none, none, none⟩,
      ⟨.inl rfl, .inl rfl, .inl rfl, .inl rfl, .inl rfl⟩, fun k _ => ?_⟩
    simp [apply, id, early, Edit.on]
  | @zoneMark direction stated room mark =>
    refine zone_edit (direction ||| Flag.zoneMark) 0 stated room fun k => ?_
    simp [applyZone, mark, UInt16.or_assoc]
  | @zoneNumber direction n stated room number whole small =>
    refine zone_edit direction (UInt16.ofNat n) stated room fun k => ?_
    have bounded := Numeral.bounded?_of_whole? whole (Nat.zero_le n) small
    simp [applyZone, number, bounded]
  | @events list bits id operand read =>
    refine ⟨⟨0, none, some bits, none, none, none⟩,
      ⟨.inl rfl, .inr id, .inl rfl, .inl rfl, .inl rfl⟩, fun k _ => ?_⟩
    rw [apply_events id operand read]
    simp [Edit.on]
  | @expectations list bits id operand read =>
    refine ⟨⟨0, none, none, some bits, none, none⟩,
      ⟨.inl rfl, .inl rfl, .inr id, .inl rfl, .inl rfl⟩, fun k _ => ?_⟩
    rw [apply_expectations id operand read]
    simp [Edit.on]
  | @helper text id operand short =>
    refine ⟨⟨0, none, none, none, some text, none⟩,
      ⟨.inl rfl, .inl rfl, .inl rfl, .inr id, .inl rfl⟩, fun k _ => ?_⟩
    rw [apply_helper id operand short]
    simp [Edit.on]
  | @timeout text id later operand short =>
    refine ⟨⟨0, none, none, none, none, some text⟩,
      ⟨.inl rfl, .inl rfl, .inl rfl, .inl rfl, .inr id⟩, fun k same => ?_⟩
    rw [← same] at later
    rw [apply_timeout id operand short later]
    simp [Edit.on]

end ConnTrack

end FilterRecord
