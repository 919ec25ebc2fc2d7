/- Proofs/Target/ConnTrackOptions
   digest: What the options of a CT rule leave in its record, and which of them may follow. -/

import FilterRecord.Proofs.Options.Register
import FilterRecord.Proofs.Target.ConnTrack
import FilterRecord.Proofs.Target.Events

set_option autoImplicit false
set_option relaxedAutoImplicit false

namespace FilterRecord.ConnTrack

open Text
open Options (Entry Occurrence Register)

def notrackRow : Entry := ⟨"notrack", Id.notrack, .flag, trackingBits, false⟩

/-- What a zone option makes of a record without a zone. -/
structure ZoneFrom (t : ConnTrack) (o : Occurrence) (direction : UInt16) : Prop where
  stated : direction? o.entry.id = some direction
  room : direction ≠ 0 → t.revision ≠ 0
  left : (sameLetters o.rawArgument "mark" = true ∧ t.flags = direction ||| Flag.zoneMark ∧
    t.zone = 0) ∨ (Numeral.whole? o.rawArgument.toList = some t.zone.toNat ∧ t.flags = direction)

/-- At most one option has stated a zone, and the record has what it states. -/
inductive Zoned (done : List Occurrence) (seen : Register) (t : ConnTrack) : Prop
  | unset : seen.Misses zoneBits → (∀ o ∈ done, direction? o.entry.id = none) → t.flags = 0 →
    t.zone = 0 → Zoned done seen t
  | set {o : Occurrence} {direction : UInt16} : ¬ seen.Misses zoneBits → o ∈ done →
    ZoneFrom t o direction → (∀ p ∈ done, direction? p.entry.id ≠ none → p = o) → Zoned done seen t

/-- The record of a rule that does not turn tracking off. -/
structure Tracked (done : List Occurrence) (seen : Register) (t : ConnTrack) : Prop where
  free : seen.Misses untrackedBits
  blank : seen.Misses (untrackedBits ||| trackingBits) →
    done = [] ∧ seen = .empty ∧ t = create t.revision
  zone : Zoned done seen t
  events : EventTable.connection.Composed t.events
  expectations : EventTable.expectation.Composed t.expectations
  helper : Unbroken t.helper ∧ (Utf8.encode t.helper.toList).length < helperWidth
  timeout : Unbroken t.timeout ∧ (Utf8.encode t.timeout.toList).length < timeoutWidth
  first : t.revision = 0 → t.timeout = ""

/-- The record of a rule after the options that have been taken. An option that turns tracking off
stands alone. -/
inductive Reached (done : List Occurrence) (seen : Register) (t : ConnTrack) : Prop
  | tracked : Tracked done seen t → Reached done seen t
  | untracked {o : Occurrence} : done = [o] → o.entry = notrackRow →
    seen = Register.empty.add notrackRow →
    t = { create t.revision with flags := Flag.untracked } → Reached done seen t

theorem reached_create (revision : UInt8) : Reached [] .empty (create revision) := by
  have helper : Unbroken "" ∧ (Utf8.encode "".toList).length < helperWidth := by decide
  have timeout : Unbroken "" ∧ (Utf8.encode "".toList).length < timeoutWidth := by decide
  exact .tracked
    { free := Register.empty_misses _
      blank := fun _ => ⟨rfl, rfl, rfl⟩
      zone := .unset (Register.empty_misses _) (by simp) rfl rfl
      events := ⟨by simp [create], fun row _ => .inl (by simp [create])⟩
      expectations := ⟨by simp [create], fun row _ => .inl (by simp [create])⟩
      helper := helper
      timeout := timeout
      first := fun _ => rfl }

/-! What the rows of the table have in common. -/

private theorem row_seen : ∀ e ∈ fullTable, e.bit &&& (untrackedBits ||| trackingBits) ≠ 0 := by
  decide

private theorem row_tracking : ∀ e ∈ fullTable,
    e.id ≠ Id.notrack → e.bit &&& untrackedBits = 0 := by
  decide

private theorem row_notrack : ∀ e ∈ fullTable, e.id = Id.notrack → e = notrackRow := by
  decide

private theorem row_zone : ∀ e ∈ fullTable, direction? e.id ≠ none →
    (e.bit ||| e.excluded) ||| zoneBits = e.bit ||| e.excluded ∧ e.bit &&& zoneBits ≠ 0 := by
  decide

private theorem row_other : ∀ e ∈ fullTable, direction? e.id = none → e.bit &&& zoneBits = 0 := by
  decide

private theorem row_name : ∀ e ∈ fullTable,
    (e.id = Id.helper → e.name = "helper") ∧ (e.id = Id.timeout → e.name = "timeout") := by
  decide

variable {done : List Occurrence} {seen : Register} {t next : ConnTrack} {o : Occurrence}

private theorem zoned_other (zoned : Zoned done seen t) (row : o.entry ∈ fullTable)
    (other : direction? o.entry.id = none) (flags : next.flags = t.flags)
    (zone : next.zone = t.zone) (revision : next.revision = t.revision) :
    Zoned (done ++ [o]) (seen.add o.entry) next := by
  have apart := row_other o.entry row other
  cases zoned with
  | unset missed none_done noFlags noZone =>
    refine .unset (Register.add_misses.mpr ⟨missed, apart⟩) ?_ (flags.trans noFlags)
      (zone.trans noZone)
    intro p member
    rcases List.mem_append.mp member with member | member
    · exact none_done p member
    · rw [List.mem_singleton.mp member]
      exact other
  | @set first direction met member made only =>
    refine .set (fun missed => met (Register.add_misses.mp missed).1)
      (List.mem_append_left _ member) ⟨made.stated, ?_, ?_⟩ ?_
    · rw [revision]
      exact made.room
    · rw [flags, zone]
      exact made.left
    · intro p known stated
      rcases List.mem_append.mp known with known | known
      · exact only p known stated
      · rw [List.mem_singleton.mp known] at stated
        exact absurd other stated

private theorem zoned_first (zoned : Zoned done seen t) (row : o.entry ∈ fullTable)
    (free : seen.Misses (o.entry.bit ||| o.entry.excluded)) {direction : UInt16}
    (stated : direction? o.entry.id = some direction) :
    t.flags = 0 ∧ ∀ p ∈ done, direction? p.entry.id = none := by
  have within := (row_zone o.entry row (by simp [stated])).1
  cases zoned with
  | unset _ none_done noFlags _ => exact ⟨noFlags, none_done⟩
  | set met => exact absurd (Register.misses_of_within within free) met

private theorem zoned_set (zoned : Zoned done seen t) (row : o.entry ∈ fullTable)
    (free : seen.Misses (o.entry.bit ||| o.entry.excluded)) {direction : UInt16}
    (made : ZoneFrom next o direction) : Zoned (done ++ [o]) (seen.add o.entry) next := by
  obtain ⟨-, none_done⟩ := zoned_first zoned row free made.stated
  have meets := (row_zone o.entry row (by simp [made.stated])).2
  refine .set (fun missed => meets (Register.add_misses.mp missed).2) (by simp) made ?_
  intro p known stated
  rcases List.mem_append.mp known with known | known
  · exact absurd (none_done p known) stated
  · exact List.mem_singleton.mp known

private theorem toNat_zone {n : Nat} (small : n ≤ 65535) : (UInt16.ofNat n).toNat = n := by
  rw [UInt16.toNat_ofNat']
  omega

private theorem tracked_step (tracked : Tracked done seen t) (row : o.entry ∈ fullTable)
    (free : seen.Misses (o.entry.bit ||| o.entry.excluded))
    (written : ∀ text, o.operand = .text text → o.rawArgument = text)
    (unbroken : o.entry.name = "helper" ∨ o.entry.name = "timeout" → Unbroken o.rawArgument)
    (tracking : o.entry.id ≠ Id.notrack) (step : Step t o next) :
    Tracked (done ++ [o]) (seen.add o.entry) next := by
  have stays : (seen.add o.entry).Misses untrackedBits :=
    Register.add_misses.mpr ⟨tracked.free, row_tracking o.entry row tracking⟩
  have starts (missed : (seen.add o.entry).Misses (untrackedBits ||| trackingBits)) :
      done ++ [o] = [] ∧ seen.add o.entry = .empty ∧ next = create next.revision :=
    absurd (Register.add_misses.mp missed).2 (row_seen o.entry row)
  cases step with
  | notrack id => exact absurd id tracking
  | zoneMark stated room mark =>
    obtain ⟨noFlags, -⟩ := zoned_first tracked.zone row free stated
    refine ⟨stays, starts, zoned_set tracked.zone row free ⟨stated, room, .inl ⟨mark, ?_, rfl⟩⟩,
      tracked.events, tracked.expectations, tracked.helper, tracked.timeout, tracked.first⟩
    simp [noFlags]
  | zoneNumber stated room _ whole small =>
    obtain ⟨noFlags, -⟩ := zoned_first tracked.zone row free stated
    refine ⟨stays, starts, zoned_set tracked.zone row free ⟨stated, room, .inr ⟨?_, ?_⟩⟩,
      tracked.events, tracked.expectations, tracked.helper, tracked.timeout, tracked.first⟩
    · simpa [toNat_zone small] using whole
    · simp [noFlags]
  | events id _ read =>
    exact ⟨stays, starts, zoned_other tracked.zone row (by rw [id]; rfl) rfl rfl rfl,
      EventTable.composed_union EventTable.sound_connection read, tracked.expectations,
      tracked.helper, tracked.timeout, tracked.first⟩
  | expectations id _ read =>
    exact ⟨stays, starts, zoned_other tracked.zone row (by rw [id]; rfl) rfl rfl rfl,
      tracked.events, EventTable.composed_union EventTable.sound_expectation read,
      tracked.helper, tracked.timeout, tracked.first⟩
  | helper id operand short =>
    have name := (row_name o.entry row).1 id
    have whole := written _ operand ▸ unbroken (.inl name)
    exact ⟨stays, starts, zoned_other tracked.zone row (by rw [id]; rfl) rfl rfl rfl,
      tracked.events, tracked.expectations, ⟨whole, short⟩, tracked.timeout, tracked.first⟩
  | timeout id later operand short =>
    have name := (row_name o.entry row).2 id
    have whole := written _ operand ▸ unbroken (.inr name)
    exact ⟨stays, starts, zoned_other tracked.zone row (by rw [id]; rfl) rfl rfl rfl,
      tracked.events, tracked.expectations, tracked.helper, ⟨whole, short⟩,
      fun first => absurd first later⟩

private theorem untracked_of_id (id : o.entry.id = Id.notrack) (step : Step t o next) :
    next = { t with flags := t.flags ||| Flag.untracked } := by
  cases step with
  | notrack => rfl
  | zoneMark stated | zoneNumber stated => exact absurd (id ▸ stated) (by simp [direction?])
  | events other | expectations other | helper other | timeout other =>
    exact absurd (id.symm.trans other) (by decide)

theorem reached_step (reached : Reached done seen t) (row : o.entry ∈ fullTable)
    (free : seen.Misses (o.entry.bit ||| o.entry.excluded))
    (written : ∀ text, o.operand = .text text → o.rawArgument = text)
    (unbroken : o.entry.name = "helper" ∨ o.entry.name = "timeout" → Unbroken o.rawArgument)
    (step : Step t o next) : Reached (done ++ [o]) (seen.add o.entry) next := by
  have closed : ∀ e ∈ fullTable,
      ¬ (Register.empty.add notrackRow).Misses (e.bit ||| e.excluded) := by decide
  cases reached with
  | untracked _ _ only _ =>
    rw [only] at free
    exact absurd free (closed o.entry row)
  | tracked tracked =>
    -- The option that turns tracking off excludes every other, so it can only come first.
    by_cases id : o.entry.id = Id.notrack
    · have entry := row_notrack o.entry row id
      rw [entry] at free
      obtain ⟨rfl, rfl, blank⟩ := tracked.blank free
      refine .untracked rfl entry (by rw [entry]) ?_
      rw [untracked_of_id id step, blank]
      simp [create]
    · exact .tracked (tracked_step tracked row free written unbroken id step)

end FilterRecord.ConnTrack
