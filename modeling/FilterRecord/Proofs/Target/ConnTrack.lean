/- Proofs/Target/ConnTrack
   digest: What each CT option does to a record, and what its layout keeps of it. -/

import FilterRecord.Target.ConnTrack
import FilterRecord.Proofs.Mask.Bits
import FilterRecord.Proofs.Outcome
import FilterRecord.Proofs.Record.Field

set_option autoImplicit false
set_option relaxedAutoImplicit false

namespace FilterRecord.ConnTrack

open Text FilterRecord.Field
open Options (Occurrence)

def direction? : Nat → Option UInt16
  | Id.zone => some 0
  | Id.zoneInitial => some Flag.initial
  | Id.zoneReply => some Flag.reply
  | _ => none

/-- What an accepted option makes of a record. -/
inductive Step (t : ConnTrack) (o : Occurrence) : ConnTrack → Prop
  | notrack : o.entry.id = Id.notrack → Step t o { t with flags := t.flags ||| Flag.untracked }
  | zoneMark {direction : UInt16} : direction? o.entry.id = some direction →
    (direction ≠ 0 → t.revision ≠ 0) → sameLetters o.rawArgument "mark" = true →
    Step t o { t with flags := t.flags ||| direction ||| Flag.zoneMark, zone := 0 }
  | zoneNumber {direction : UInt16} {n : Nat} : direction? o.entry.id = some direction →
    (direction ≠ 0 → t.revision ≠ 0) → sameLetters o.rawArgument "mark" = false →
    Numeral.whole? o.rawArgument.toList = some n → n ≤ 65535 →
    Step t o { t with flags := t.flags ||| direction, zone := UInt16.ofNat n }
  | events {list : String} {bits : UInt32} : o.entry.id = Id.events → o.operand = .text list →
    EventTable.connection.read list = .ok bits → Step t o { t with events := bits }
  | expectations {list : String} {bits : UInt32} : o.entry.id = Id.expectations →
    o.operand = .text list → EventTable.expectation.read list = .ok bits →
    Step t o { t with expectations := bits }
  | helper {text : String} : o.entry.id = Id.helper → o.operand = .text text →
    (Utf8.encode text.toList).length < helperWidth → Step t o { t with helper := text }
  | timeout {text : String} : o.entry.id = Id.timeout → t.revision ≠ 0 → o.operand = .text text →
    (Utf8.encode text.toList).length < timeoutWidth → Step t o { t with timeout := text }

private theorem readEvents_ok {table : EventTable} {o : Occurrence} {list : String} {bits : UInt32}
    (ok : readEvents table o list = .ok bits) : table.read list = .ok bits := by
  unfold readEvents at ok
  split at ok
  · rename_i read
    cases ok
    exact read
  · exact absurd ok (by simp)

private theorem readName_ok {what : String} {width : Nat} {o : Occurrence} {text name : String}
    (ok : readName what width o text = .ok name) :
    name = text ∧ (Utf8.encode text.toList).length < width := by
  unfold readName at ok
  split at ok
  · rename_i short
    cases ok
    exact ⟨rfl, short⟩
  · exact absurd ok (by simp)

private theorem step_of_applyZone {t next : ConnTrack} {o : Occurrence} {direction : UInt16}
    (known : direction? o.entry.id = some direction) (room : direction ≠ 0 → t.revision ≠ 0)
    (ok : applyZone direction t o = (next, .ok ())) : Step t o next := by
  unfold applyZone at ok
  dsimp only at ok
  split at ok
  · rename_i mark
    cases ok
    exact .zoneMark known room mark
  · rename_i number
    split at ok
    · rename_i zone bounded
      cases ok
      obtain ⟨whole, range⟩ := Option.filter_eq_some_iff.mp bounded
      have high : zone ≤ 65535 := by simpa using range
      exact .zoneNumber known room (by simpa using number) whole high
    · exact absurd ok (by simp)

theorem step_of_apply {t next : ConnTrack} {o : Occurrence} (ok : t.apply o = (next, .ok ())) :
    Step t o next := by
  unfold apply at ok
  split at ok
  · exact absurd ok (by simp)
  · rename_i supported
    have room (needs : needsRevisionOne o.entry.id = true) : t.revision ≠ 0 := by
      rintro zero
      exact supported (by simp [needs, zero])
    split at ok
    · rename_i id
      cases ok
      exact .notrack id
    · rename_i id
      exact step_of_applyZone (by rw [id]; rfl) (fun h => absurd rfl h) ok
    · rename_i id
      exact step_of_applyZone (by rw [id]; rfl) (fun _ => room (by rw [id]; rfl)) ok
    · rename_i id
      exact step_of_applyZone (by rw [id]; rfl) (fun _ => room (by rw [id]; rfl)) ok
    · rename_i id operand
      obtain ⟨bits, read, rfl⟩ := map_eq_ok_iff.mp (commit_ok ok)
      exact .events id operand (readEvents_ok read)
    · rename_i id operand
      obtain ⟨bits, read, rfl⟩ := map_eq_ok_iff.mp (commit_ok ok)
      exact .expectations id operand (readEvents_ok read)
    · rename_i id operand
      obtain ⟨name, read, rfl⟩ := map_eq_ok_iff.mp (commit_ok ok)
      obtain ⟨rfl, short⟩ := readName_ok read
      exact .helper id operand short
    · rename_i id operand
      obtain ⟨name, read, rfl⟩ := map_eq_ok_iff.mp (commit_ok ok)
      obtain ⟨rfl, short⟩ := readName_ok read
      exact .timeout id (room (by rw [id]; rfl)) operand short
    · exact absurd ok (by simp)

/-- A name that its slot holds whole: room is left for a zero, and none is in the name. -/
def Named (width : Nat) (text : String) : Prop :=
  (Utf8.encode text.toList).length < width ∧ '\x00' ∉ text.toList

structure Fits (t : ConnTrack) : Prop where
  helper : Named helperWidth t.helper
  timeout : Named timeoutWidth t.timeout
  first : t.revision = 0 → t.timeout = ""

private theorem named_empty {width : Nat} (room : 0 < width) : Named width "" := by
  simp [Named, Utf8.encode, room]

theorem fits_create (revision : UInt8) : (create revision).Fits where
  helper := named_empty (by decide)
  timeout := named_empty (by decide)
  first := fun _ => rfl

theorem fits_createAlias (revision : UInt8) : (createAlias revision).Fits where
  helper := named_empty (by decide)
  timeout := named_empty (by decide)
  first := fun _ => rfl

theorem revision_step {t next : ConnTrack} {o : Occurrence} (step : Step t o next) :
    next.revision = t.revision := by
  cases step <;> rfl

theorem viaAlias_step {t next : ConnTrack} {o : Occurrence} (step : Step t o next) :
    next.viaAlias = t.viaAlias := by
  cases step <;> rfl

theorem fits_step {t next : ConnTrack} {o : Occurrence} (fits : t.Fits) (step : Step t o next)
    (plain : ∀ text, o.operand = .text text → '\x00' ∉ text.toList) : next.Fits := by
  cases step with
  | notrack | zoneMark | zoneNumber | events | expectations =>
    exact ⟨fits.helper, fits.timeout, fits.first⟩
  | helper _ operand short => exact ⟨⟨short, plain _ operand⟩, fits.timeout, fits.first⟩
  | timeout _ later operand short =>
    exact ⟨fits.helper, ⟨short, plain _ operand⟩, fun zero => absurd zero later⟩

private def tail (t : ConnTrack) : Bytes :=
  (if 1 ≤ t.revision then nameSlot timeoutWidth t.timeout else []) ++
    zeros (size t.revision -
      (if 1 ≤ t.revision then 12 + helperWidth + timeoutWidth else 12 + helperWidth))

private theorem pack_eq (t : ConnTrack) :
    t.pack = word16 t.flags ++ (word16 t.zone ++ (word32 t.events ++ (word32 t.expectations ++
      (nameSlot helperWidth t.helper ++ t.tail)))) := by
  simp [pack, tail]

private theorem tail_first {t : ConnTrack} (first : t.revision = 0) : t.tail = zeros 12 := by
  simp [tail, first, size, userspaceSize, align, helperWidth]

private theorem tail_later {t : ConnTrack} (later : t.revision ≠ 0) :
    t.tail = nameSlot timeoutWidth t.timeout ++ zeros 12 := by
  have above := one_le_of_ne_zero later
  simp [tail, later, above, size, userspaceSize, align, helperWidth, timeoutWidth]

theorem length_pack (t : ConnTrack) : t.pack.length = size t.revision := by
  have helper : (nameSlot helperWidth t.helper).length = 16 := length_nameSlot _ _
  have timeout : (nameSlot timeoutWidth t.timeout).length = 32 := length_nameSlot _ _
  rw [pack_eq]
  by_cases first : t.revision = 0
  · simp only [tail_first first, List.length_append, length_word16, length_word32, helper,
      length_zeros]
    simp [first, size, userspaceSize, align, helperWidth]
  · simp only [tail_later first, List.length_append, length_word16, length_word32, helper, timeout,
      length_zeros]
    simp [first, size, userspaceSize, align, helperWidth, timeoutWidth]

private theorem holds_pack {t : ConnTrack} {offset : Nat} {bytes : Bytes}
    (held : Holds offset bytes (nameSlot helperWidth t.helper ++ t.tail)) :
    Holds (offset + 12) bytes t.pack := by
  rw [pack_eq]
  simpa [Nat.add_assoc] using holds_after (word16 t.flags) (holds_after (word16 t.zone)
    (holds_after (word32 t.events) (holds_after (word32 t.expectations) held)))

private theorem getName_helper {t : ConnTrack} (fits : t.Fits) :
    getName 12 helperWidth t.pack = .ok t.helper :=
  getName_of_holds (by simpa using holds_pack (holds_first _ _)) fits.helper.1 fits.helper.2

private theorem getName_timeout {t : ConnTrack} (fits : t.Fits) (later : t.revision ≠ 0) :
    getName (12 + helperWidth) timeoutWidth t.pack = .ok t.timeout := by
  have slot : (nameSlot helperWidth t.helper).length = 16 := length_nameSlot _ _
  refine getName_of_holds ?_ fits.timeout.1 fits.timeout.2
  have held : Holds 0 (nameSlot timeoutWidth t.timeout) t.tail := by
    rw [tail_later later]
    exact holds_first _ _
  have after : Holds 28 (nameSlot timeoutWidth t.timeout) t.pack := by
    simpa [slot] using holds_pack (holds_after (nameSlot helperWidth t.helper) held)
  exact after

theorem unpack_pack {t : ConnTrack} (fits : t.Fits) :
    unpack t.revision t.pack = .ok { t with viaAlias := false } := by
  have flags : get16 0 t.pack = .ok t.flags := get16_of_holds (by
    rw [pack_eq]
    exact holds_first _ _)
  have zone : get16 2 t.pack = .ok t.zone := get16_of_holds (by
    rw [pack_eq]
    simpa using holds_after (word16 t.flags) (holds_first (word16 t.zone) _))
  have events : get32 4 t.pack = .ok t.events := get32_of_holds (by
    rw [pack_eq]
    simpa using holds_after (word16 t.flags) (holds_after (word16 t.zone) (holds_first _ _)))
  have expectations : get32 8 t.pack = .ok t.expectations := get32_of_holds (by
    rw [pack_eq]
    simpa using holds_after (word16 t.flags) (holds_after (word16 t.zone)
      (holds_after (word32 t.events) (holds_first _ _))))
  rw [unpack, checkSize_of_length t.length_pack, flags, zone, events, expectations,
    getName_helper fits]
  by_cases first : t.revision = 0
  · simp [first, fits.first first, bind, Except.bind, pure, Except.pure]
  · simp [one_le_of_ne_zero first, getName_timeout fits first, bind, Except.bind, pure, Except.pure]

theorem unpack_ok {revision : UInt8} {record : Bytes} {t : ConnTrack}
    (ok : unpack revision record = .ok t) :
    t.revision = revision ∧ (t.revision = 0 → t.timeout = "") := by
  obtain ⟨_, -, read⟩ := bind_eq_ok_iff.mp ok
  obtain ⟨flags, -, read⟩ := bind_eq_ok_iff.mp read
  obtain ⟨zone, -, read⟩ := bind_eq_ok_iff.mp read
  obtain ⟨events, -, read⟩ := bind_eq_ok_iff.mp read
  obtain ⟨expectations, -, read⟩ := bind_eq_ok_iff.mp read
  obtain ⟨helper, -, read⟩ := bind_eq_ok_iff.mp read
  dsimp only at read
  split at read
  · rename_i later
    obtain ⟨timeout, -, made⟩ := bind_eq_ok_iff.mp read
    cases made
    refine ⟨rfl, ?_⟩
    rintro rfl
    exact absurd later (by decide)
  · obtain ⟨timeout, slot, made⟩ := bind_eq_ok_iff.mp read
    cases slot
    cases made
    exact ⟨rfl, fun _ => rfl⟩

end FilterRecord.ConnTrack
