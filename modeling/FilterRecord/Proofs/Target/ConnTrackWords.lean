/- Proofs/Target/ConnTrackWords
   digest: The words that save a CT record, where options can state it, lead a fresh rule to it. -/

import FilterRecord.Proofs.Arguments.Writing
import FilterRecord.Proofs.Target.ConnTrackOptions

set_option autoImplicit false
set_option relaxedAutoImplicit false

namespace FilterRecord.ConnTrack

open Text
open Options (Entry Occurrence Operand Register Shows shown)
open Extension (Leads)

variable {seen : Register} {t next : ConnTrack} {o : Occurrence}

/-! The rows that a saved record is written with, and what each makes of a record. -/

def helperRow : Entry := ⟨"helper", Id.helper, .text, untrackedBits, false⟩

def eventsRow : Entry := ⟨"ctevents", Id.events, .text, untrackedBits, false⟩

def expectationsRow : Entry := ⟨"expevents", Id.expectations, .text, untrackedBits, false⟩

def timeoutRow : Entry := ⟨"timeout", Id.timeout, .text, untrackedBits, false⟩

theorem apply_extension {host : Context} (applied : t.apply o = (next, .ok ())) :
    (Extension.connTrack t).apply host o = (.connTrack next, .ok ()) := by
  simp [Extension.apply, applied]

theorem apply_helper {text : String} (id : o.entry.id = Id.helper)
    (operand : o.operand = .text text) (short : (Utf8.encode text.toList).length < helperWidth) :
    t.apply o = ({ t with helper := text }, .ok ()) := by
  have early : needsRevisionOne Id.helper = false := rfl
  simp [apply, id, operand, early, readName, short, Options.commit, Except.map]

theorem apply_timeout {text : String} (id : o.entry.id = Id.timeout)
    (operand : o.operand = .text text) (short : (Utf8.encode text.toList).length < timeoutWidth)
    (later : t.revision ≠ 0) : t.apply o = ({ t with timeout := text }, .ok ()) := by
  have supported : ¬ t.revision < 1 := UInt8.not_lt.mpr (one_le_of_ne_zero later)
  simp [apply, id, operand, supported, readName, short, Options.commit, Except.map]

theorem apply_events {list : String} {bits : UInt32} (id : o.entry.id = Id.events)
    (operand : o.operand = .text list) (read : EventTable.connection.read list = .ok bits) :
    t.apply o = ({ t with events := bits }, .ok ()) := by
  have early : needsRevisionOne Id.events = false := rfl
  simp [apply, id, operand, early, readEvents, read, Options.commit, Except.map]

theorem apply_expectations {list : String} {bits : UInt32}
    (id : o.entry.id = Id.expectations) (operand : o.operand = .text list)
    (read : EventTable.expectation.read list = .ok bits) :
    t.apply o = ({ t with expectations := bits }, .ok ()) := by
  have early : needsRevisionOne Id.expectations = false := rfl
  simp [apply, id, operand, early, readEvents, read, Options.commit, Except.map]

theorem apply_zone {direction : UInt16} (stated : direction? o.entry.id = some direction)
    (room : direction ≠ 0 → t.revision ≠ 0) : t.apply o = applyZone direction t o := by
  have later (some_direction : direction ≠ 0) : ¬ t.revision < 1 :=
    UInt8.not_lt.mpr (one_le_of_ne_zero (room some_direction))
  unfold direction? at stated
  split at stated
  · rename_i id
    cases stated
    have early : needsRevisionOne Id.zone = false := rfl
    simp [apply, id, early]
  · rename_i id
    cases stated
    simp [apply, id, later (by decide)]
  · rename_i id
    cases stated
    simp [apply, id, later (by decide)]
  · exact absurd stated (by simp)

def zoneRow (direction : UInt16) : Entry :=
  if direction = Flag.initial then
    ⟨"zone-orig", Id.zoneInitial, .text, untrackedBits ||| zoneBits, false⟩
  else if direction = Flag.reply then
    ⟨"zone-reply", Id.zoneReply, .text, untrackedBits ||| zoneBits, false⟩
  else ⟨"zone", Id.zone, .text, untrackedBits ||| zoneBits, false⟩

theorem direction_mem {id : Nat} {direction : UInt16}
    (stated : direction? id = some direction) : direction ∈ [0, Flag.initial, Flag.reply] := by
  unfold direction? at stated
  split at stated <;> cases stated <;> decide

theorem zoneRow_fits : ∀ direction ∈ [0, Flag.initial, Flag.reply],
    zoneRow direction ∈ fullTable ∧ (zoneRow direction).kind = .text ∧
      direction? (zoneRow direction).id = some direction ∧
      (zoneRow direction).bit ||| (zoneRow direction).excluded = untrackedBits ||| zoneBits ∧
      (zoneRow direction).bit &&& (timeoutRow.bit ||| timeoutRow.excluded) = 0 := by
  simp only [List.forall_mem_cons, List.not_mem_nil, false_implies, implies_true, and_true]
  decide

def flagged (flags : UInt16) : ConnTrack := { create 0 with flags := flags }

theorem flagged_zone : ∀ direction ∈ [0, Flag.initial, Flag.reply],
    ∀ mark ∈ [0, Flag.zoneMark],
      "--zone" ++ (flagged (direction ||| mark)).directionSuffix =
        "--" ++ (zoneRow direction).name ∧
      (flagged (direction ||| mark)).has Flag.zoneMark = (mark != 0) ∧
      (flagged (direction ||| mark)).has Flag.untracked = false ∧
      (flagged (direction ||| mark)).has Flag.byAlias = false := by
  simp only [List.forall_mem_cons, List.not_mem_nil, false_implies, implies_true, and_true]
  decide

/-- A zone that an option can state: at most one direction, and the packet's mark or a number. -/
structure ZoneShape (t : ConnTrack) (direction mark : UInt16) : Prop where
  directed : direction ∈ [0, Flag.initial, Flag.reply]
  marked : mark ∈ [0, Flag.zoneMark]
  flags : t.flags = direction ||| mark
  zone : mark ≠ 0 → t.zone = 0
  room : direction ≠ 0 → t.revision ≠ 0

/-- A record that options which leave tracking on can state. -/
structure Expressible (t : ConnTrack) : Prop where
  zone : ∃ direction mark, ZoneShape t direction mark
  events : EventTable.connection.Composed t.events
  expectations : EventTable.expectation.Composed t.expectations
  helper : Unbroken t.helper ∧ (Utf8.encode t.helper.toList).length < helperWidth
  timeout : Unbroken t.timeout ∧ (Utf8.encode t.timeout.toList).length < timeoutWidth
  first : t.revision = 0 → t.timeout = ""
  asked : t.viaAlias = false

def showsZone (t : ConnTrack) : Bool := t.has Flag.zoneMark || t.zone != 0

/-- What the saved text gives again: all but a direction without a zone. -/
def kept (t : ConnTrack) : ConnTrack :=
  { t with flags := if t.has Flag.untracked || t.showsZone then t.flags else 0 }

variable (host : Context) {b : ConnTrack}

private theorem applyZone_mark {direction : UInt16} (argument : o.argument = some "mark") :
    applyZone direction t o =
      ({ t with flags := t.flags ||| direction ||| Flag.zoneMark, zone := 0 }, .ok ()) := by
  have same : sameLetters "mark" "mark" = true := by decide
  simp [applyZone, Occurrence.rawArgument, argument, same]

theorem whole?_mark {text : String} (same : sameLetters text "mark" = true) :
    Numeral.whole? text.toList = none := by
  have letters : "mark" = String.ofList ('m' :: ['a', 'r', 'k']) := by decide
  rw [letters] at same
  simp [Numeral.whole?, Numeral.read?_of_sameLetters same (by decide)]

private theorem sameLetters_decimal {n : Nat} (small : n < 0x10000000000000000) :
    sameLetters (Numeral.decimal n) "mark" = false := by
  by_contra same
  rw [Bool.not_eq_false] at same
  exact absurd ((whole?_mark same).symm.trans (Numeral.whole?_decimal small)) (by simp)

private theorem applyZone_decimal {direction zone : UInt16}
    (argument : o.argument = some (Numeral.decimal zone.toNat)) :
    applyZone direction t o =
      ({ t with flags := t.flags ||| direction, zone := zone }, .ok ()) := by
  have small := zone.toNat_lt
  have other := sameLetters_decimal (n := zone.toNat) (by omega)
  have bounded : Numeral.bounded? 0 65535 (Numeral.decimal zone.toNat).toList = some zone.toNat :=
    Numeral.bounded?_of_whole? (Numeral.whole?_decimal (by omega)) (Nat.zero_le _) (by omega)
  simp [applyZone, Occurrence.rawArgument, argument, other, bounded]

theorem has_shape {direction mark : UInt16} (shape : ZoneShape t direction mark) :
    "--zone" ++ t.directionSuffix = "--" ++ (zoneRow direction).name ∧
      t.has Flag.zoneMark = (mark != 0) ∧ t.has Flag.untracked = false ∧
      t.has Flag.byAlias = false := by
  have known := flagged_zone direction shape.directed mark shape.marked
  rw [← shape.flags] at known
  exact known

private theorem leads_stated {direction mark : UInt16} (shape : ZoneShape t direction mark)
    (noFlags : b.flags = 0) (asked : b.viaAlias = false)
    (revision : b.revision = t.revision) (free : seen.Misses (untrackedBits ||| zoneBits)) :
    Leads host (Extension.connTrack b).grammar
      ["--zone" ++ t.directionSuffix,
        if t.has Flag.zoneMark then "mark" else Numeral.decimal t.zone.toNat]
      seen (.connTrack b) (seen.add (zoneRow direction))
      (.connTrack { b with flags := t.flags, zone := t.zone }) := by
  obtain ⟨row, kind, stated, bits, -⟩ := zoneRow_fits direction shape.directed
  obtain ⟨name, has_mark, -, -⟩ := has_shape shape
  have room : direction ≠ 0 → b.revision ≠ 0 := by
    rw [revision]
    exact shape.room
  have listed : zoneRow direction ∈ (Extension.connTrack b).grammar.table := by
    simpa [Extension.grammar, Extension.table, table, asked] using row
  have open_row : seen.Misses ((zoneRow direction).bit ||| (zoneRow direction).excluded) := by
    rwa [bits]
  have reads (argument : String) :
      Shows (zoneRow direction).kind (some argument) (.text argument) := by
    rw [kind]
    exact .text argument
  rw [name, has_mark]
  rcases List.mem_pair.mp shape.marked with rfl | rfl
  · refine Extension.leads_plain (Extension.legible_grammar _) listed open_row (reads _)
      (apply_extension ?_)
    rw [apply_zone stated room, applyZone_decimal rfl, noFlags, shape.flags]
    simp
  · refine Extension.leads_plain (Extension.legible_grammar _) listed open_row (reads _)
      (apply_extension ?_)
    rw [apply_zone stated room, applyZone_mark rfl, noFlags, shape.flags, shape.zone (by decide)]
    simp

private theorem leads_zone {direction mark : UInt16} (shape : ZoneShape t direction mark)
    (noFlags : b.flags = 0) (noZone : b.zone = 0) (asked : b.viaAlias = false)
    (revision : b.revision = t.revision) (free : seen.Misses (untrackedBits ||| zoneBits)) :
    Leads host (Extension.connTrack b).grammar
      (shown t.showsZone false ["--zone" ++ t.directionSuffix,
        if t.has Flag.zoneMark then "mark" else Numeral.decimal t.zone.toNat])
      seen (.connTrack b) (seen.after t.showsZone (zoneRow direction))
      (.connTrack { b with flags := if t.showsZone then t.flags else 0, zone := t.zone }) := by
  cases shows : t.showsZone with
  | false =>
    have zone : t.zone = 0 := by
      unfold showsZone at shows
      simpa using (Bool.or_eq_false_iff.mp shows).2
    have same : { b with flags := 0, zone := t.zone } = b := by
      cases b
      simp_all
    simpa [shown, Register.after, same] using Extension.leads_nil
  | true => exact leads_stated host shape noFlags asked revision free

private theorem leads_text {e : Entry} {given : Bool} {text : String} (asked : b.viaAlias = false)
    (row : e ∈ fullTable) (kind : e.kind = .text) (free : seen.Misses (e.bit ||| e.excluded))
    (applied : given = true → ∀ o : Occurrence, o.entry = e → o.operand = .text text →
      b.apply o = (next, .ok ()))
    (skipped : given = false → b = next) :
    Leads host (Extension.connTrack b).grammar (shown given false ["--" ++ e.name, text])
      seen (.connTrack b) (seen.after given e) (.connTrack next) := by
  have listed : e ∈ (Extension.connTrack b).grammar.table := by
    simpa [Extension.grammar, Extension.table, table, asked] using row
  have shows : Shows e.kind (some text) (.text text) := by
    rw [kind]
    exact .text text
  refine Extension.leads_shown (Extension.legible_grammar _) listed (fun _ => free) (by simp) shows
    (fun yes => apply_extension (applied yes _ rfl rfl)) ?_
  intro no
  rw [skipped no]

private theorem leads_helper {text : String} (asked : b.viaAlias = false)
    (blank : b.helper = "") (short : (Utf8.encode text.toList).length < helperWidth)
    (free : seen.Misses (helperRow.bit ||| helperRow.excluded)) :
    Leads host (Extension.connTrack b).grammar
      (shown (text != "") false ["--" ++ helperRow.name, text]) seen (.connTrack b)
      (seen.after (text != "") helperRow) (.connTrack { b with helper := text }) := by
  refine leads_text host asked (by decide) rfl free ?_ ?_
  · intro _ o entry operand
    exact apply_helper (by rw [entry]; rfl) operand short
  · intro hidden
    have none : text = "" := by simpa using hidden
    rw [none, ← blank]

private theorem leads_events {events : EventTable} {bits : UInt32} {e : Entry}
    (make : UInt32 → ConnTrack) (sound : events.Sound) (composed : events.Composed bits)
    (asked : (make 0).viaAlias = false) (row : e ∈ fullTable) (kind : e.kind = .text)
    (applied : ∀ o : Occurrence, o.entry = e → ∀ list, o.operand = .text list →
      events.read list = .ok bits → (make 0).apply o = (make bits, .ok ()))
    (free : seen.Misses (e.bit ||| e.excluded)) :
    Leads host (Extension.connTrack (make 0)).grammar
      (shown (bits != 0) false ["--" ++ e.name, events.display bits])
      seen (.connTrack (make 0)) (seen.after (bits != 0) e) (.connTrack (make bits)) := by
  refine leads_text host asked row kind free ?_ ?_
  · intro given o entry operand
    have read := EventTable.read_display sound composed (by simpa using given)
    exact applied o entry _ operand read
  · intro hidden
    have none : bits = 0 := by simpa using hidden
    rw [none]

private theorem leads_timeout {text : String} (asked : b.viaAlias = false)
    (blank : b.timeout = "") (short : (Utf8.encode text.toList).length < timeoutWidth)
    (first : b.revision = 0 → text = "")
    (free : seen.Misses (timeoutRow.bit ||| timeoutRow.excluded)) :
    Leads host (Extension.connTrack b).grammar
      (shown (1 ≤ b.revision && text != "") false ["--" ++ timeoutRow.name, text])
      seen (.connTrack b) (seen.after (1 ≤ b.revision && text != "") timeoutRow)
      (.connTrack { b with timeout := text }) := by
  refine leads_text host asked (by decide) rfl free ?_ ?_
  · intro given o entry operand
    have some_text : text ≠ "" := by simpa using (Bool.and_eq_true_iff.mp given).2
    exact apply_timeout (by rw [entry]; rfl) operand short fun zero => some_text (first zero)
  · intro hidden
    have none : text = "" := by
      rcases Bool.and_eq_false_iff.mp hidden with early | none
      · refine first ?_
        by_contra later
        exact absurd (one_le_of_ne_zero later) (by simpa using early)
      · simpa using none
    rw [none, ← blank]

private def named (t : ConnTrack) : ConnTrack :=
  { create t.revision with
    helper := t.helper
    events := t.events
    expectations := t.expectations }

private theorem leads_named (expressible : t.Expressible) :
    ∃ after : Register, (∀ mask, (∀ e ∈ [helperRow, eventsRow, expectationsRow],
        e.bit &&& mask = 0) → after.Misses mask) ∧
      Leads host (Extension.connTrack (create t.revision)).grammar
        (shown (t.helper != "") false ["--" ++ helperRow.name, t.helper] ++
        shown (t.events != 0) false
          ["--" ++ eventsRow.name, EventTable.connection.display t.events] ++
        shown (t.expectations != 0) false
          ["--" ++ expectationsRow.name, EventTable.expectation.display t.expectations])
        .empty (.connTrack (create t.revision)) after (.connTrack t.named) := by
  have helper_free {mask : UInt32} (apart : helperRow.bit &&& mask = 0) :
      (Register.empty.after (t.helper != "") helperRow).Misses mask :=
    Register.after_misses.mpr ⟨Register.empty_misses _, fun _ => apart⟩
  have events_free {mask : UInt32} (helper : helperRow.bit &&& mask = 0)
      (events : eventsRow.bit &&& mask = 0) :
      ((Register.empty.after (t.helper != "") helperRow).after (t.events != 0) eventsRow).Misses
        mask := Register.after_misses.mpr ⟨helper_free helper, fun _ => events⟩
  refine ⟨_, ?_, Extension.leads_append (Extension.leads_append
    (leads_helper host (b := create t.revision) rfl rfl expressible.helper.2
      (Register.empty_misses _))
    (leads_events host (fun bits => { create t.revision with helper := t.helper, events := bits })
      EventTable.sound_connection expressible.events rfl (by decide) rfl
      (fun o entry _ operand read => apply_events (by rw [entry]; rfl) operand read)
      (helper_free (by decide))))
    (leads_events host (fun bits => { t.named with expectations := bits })
      EventTable.sound_expectation expressible.expectations rfl (by decide) rfl
      (fun o entry _ operand read => apply_expectations (by rw [entry]; rfl) operand read)
      (events_free (by decide) (by decide)))⟩
  intro mask apart
  exact Register.after_misses.mpr ⟨events_free (apart _ (by simp)) (apart _ (by simp)),
    fun _ => apart _ (by simp)⟩

private theorem restored_words (expressible : t.Expressible) :
    ∃ final, (Extension.connTrack (create t.revision)).applyTokens host t.savedWords =
      (.connTrack t.kept, .ok final) := by
  obtain ⟨direction, mark, shape⟩ := expressible.zone
  obtain ⟨-, -, untracked, byAlias⟩ := has_shape shape
  have apart := (zoneRow_fits direction shape.directed).2.2.2.2
  have words : t.savedWords =
      shown (t.helper != "") false ["--" ++ helperRow.name, t.helper] ++
      shown (t.events != 0) false
        ["--" ++ eventsRow.name, EventTable.connection.display t.events] ++
      shown (t.expectations != 0) false
        ["--" ++ expectationsRow.name, EventTable.expectation.display t.expectations] ++
      shown t.showsZone false ["--zone" ++ t.directionSuffix,
        if t.has Flag.zoneMark then "mark" else Numeral.decimal t.zone.toNat] ++
      shown (1 ≤ t.revision && t.timeout != "") false ["--" ++ timeoutRow.name, t.timeout] := by
    rw [savedWords, byAlias, if_neg (by decide), ruleWords, untracked]
    rfl
  obtain ⟨after, free, names⟩ := leads_named host expressible
  have zone := leads_zone host (b := t.named) shape rfl rfl rfl rfl
    (free (untrackedBits ||| zoneBits) (by decide))
  have open_timeout : (after.after t.showsZone (zoneRow direction)).Misses
      (timeoutRow.bit ||| timeoutRow.excluded) :=
    Register.after_misses.mpr ⟨free _ (by decide), fun _ => apart⟩
  have timeout := leads_timeout host
    (b := { t.named with flags := if t.showsZone then t.flags else 0, zone := t.zone })
    rfl rfl expressible.timeout.2 expressible.first open_timeout
  have whole : t.kept = { t.named with
      flags := if t.showsZone then t.flags else 0, zone := t.zone, timeout := t.timeout } := by
    rw [kept, untracked, Bool.false_or, named, create, ← expressible.asked]
  rw [words, whole]
  exact ⟨_, Extension.applyTokens_of_leads
    (Extension.leads_append (Extension.leads_append names zone) timeout) rfl⟩

theorem solid_savedWords (expressible : t.Expressible) : ∀ w ∈ t.savedWords, Solid w := by
  obtain ⟨_, _, shape⟩ := expressible.zone
  obtain ⟨-, -, untracked, byAlias⟩ := has_shape shape
  have suffix : Solid ("--" ++ "zone" ++ t.directionSuffix) := by
    unfold directionSuffix
    split
    · decide
    · split <;> decide
  have zone : Solid (if t.has Flag.zoneMark then "mark" else Numeral.decimal t.zone.toNat) := by
    split
    · decide
    · exact solid_decimal _
  intro w hw
  rw [savedWords, byAlias, if_neg (by decide), ruleWords, untracked] at hw
  simp only [List.mem_append] at hw
  rcases hw with ((((hw | hw) | hw) | hw) | hw) | hw
  · exact absurd hw (by simp [shown])
  · refine solid_shown (fun given => solid_pair (by decide) ⟨?_, expressible.helper.1⟩) w hw
    simpa using given
  · refine solid_shown (fun given => solid_pair (by decide) ?_) w hw
    exact EventTable.solid_display EventTable.sound_connection expressible.events
      (by simpa using given)
  · refine solid_shown (fun given => solid_pair (by decide) ?_) w hw
    exact EventTable.solid_display EventTable.sound_expectation expressible.expectations
      (by simpa using given)
  · exact solid_shown (fun _ => solid_pair suffix zone) w hw
  · refine solid_shown (fun given => solid_pair (by decide) ⟨?_, expressible.timeout.1⟩) w hw
    simpa using (Bool.and_eq_true_iff.mp given).2

theorem restored (expressible : t.Expressible) :
    ∃ final, (Extension.connTrack (create t.revision)).applyTokens host
      (tokens ((Extension.connTrack t).saved host)) = (.connTrack t.kept, .ok final) := by
  have cut : tokens ((Extension.connTrack t).saved host) = t.savedWords :=
    tokens_render (solid_savedWords expressible)
  rw [cut]
  exact restored_words host expressible

end FilterRecord.ConnTrack
