/- Proofs/Target/ConnTrackNormalForm
   digest: What the saved text of any CT record shows is all that an accepted rule takes from it. -/

import FilterRecord.Proofs.Arguments.Accepting
import FilterRecord.Proofs.Target.ConnTrackSaved

set_option autoImplicit false
set_option relaxedAutoImplicit false

namespace FilterRecord.ConnTrack

open Text
open Options (Entry Occurrence Operand Register shown)
open Extension (textTokens)

variable {t b next : ConnTrack} {e : Entry} {o : Occurrence}

/-- The direction that the saved text of a zone names, when it is the only one. -/
def direction (t : ConnTrack) : UInt16 :=
  if t.has Flag.initial && !t.has Flag.reply then Flag.initial
  else if t.has Flag.reply && !t.has Flag.initial then Flag.reply
  else 0

/-- What the saved text shows of a record that leaves tracking on. -/
def visible (t : ConnTrack) : ConnTrack :=
  { create t.revision with
    flags := if t.showsZone then
      t.direction ||| (if t.has Flag.zoneMark then Flag.zoneMark else 0) else 0
    zone := if t.has Flag.zoneMark then 0 else t.zone
    events := t.events &&& bitsOf EventTable.connection
    expectations := t.expectations &&& bitsOf EventTable.expectation
    helper := t.helper
    timeout := t.timeout }

def rows (t : ConnTrack) : List Entry :=
  [helperRow, eventsRow, expectationsRow, zoneRow t.direction, timeoutRow]

def gives (t : ConnTrack) (e : Entry) : Bool :=
  match e.id with
  | Id.helper => t.helper != ""
  | Id.events => t.events != 0
  | Id.expectations => t.expectations != 0
  | Id.timeout => 1 ≤ t.revision && t.timeout != ""
  | _ => t.showsZone

def text (t : ConnTrack) (e : Entry) : String :=
  match e.id with
  | Id.helper => t.helper
  | Id.events => EventTable.connection.display t.events
  | Id.expectations => EventTable.expectation.display t.expectations
  | Id.timeout => t.timeout
  | _ => if t.has Flag.zoneMark then "mark" else Numeral.decimal t.zone.toNat

private theorem direction_known (t : ConnTrack) : t.direction ∈ [0, Flag.initial, Flag.reply] := by
  unfold direction
  split
  · simp
  · split <;> simp

private theorem name_zoneRow (t : ConnTrack) :
    "--" ++ "zone" ++ t.directionSuffix = "--" ++ (zoneRow t.direction).name := by
  unfold directionSuffix direction
  split
  · decide
  · split <;> decide

private theorem zoneRow_row (t : ConnTrack) : t.gives (zoneRow t.direction) = t.showsZone ∧
    t.text (zoneRow t.direction) =
      if t.has Flag.zoneMark then "mark" else Numeral.decimal t.zone.toNat := by
  have stated := (zoneRow_fits t.direction t.direction_known).2.2.1
  unfold direction? at stated
  split at stated
  · rename_i id
    simp [gives, text, id]
  · rename_i id
    simp [gives, text, id]
  · rename_i id
    simp [gives, text, id]
  · cases stated

private theorem rows_full (t : ConnTrack) : t.rows ⊆ fullTable := by
  have others : ∀ e ∈ [helperRow, eventsRow, expectationsRow, timeoutRow], e ∈ fullTable := by
    decide
  have zone := (zoneRow_fits t.direction t.direction_known).1
  simp only [List.forall_mem_cons] at others
  obtain ⟨helper, events, expectations, timeout, -⟩ := others
  intro e row
  simp only [rows, List.mem_cons, List.not_mem_nil, or_false] at row
  rcases row with rfl | rfl | rfl | rfl | rfl
  · exact helper
  · exact events
  · exact expectations
  · exact zone
  · exact timeout

private theorem savedWords_rows (asked : t.has Flag.byAlias = false) :
    t.savedWords = shown (t.has Flag.untracked) false ["--notrack"] ++
      t.rows.flatMap fun e => shown (t.gives e) false ["--" ++ e.name, t.text e] := by
  obtain ⟨zone_gives, zone_text⟩ := t.zoneRow_row
  rw [savedWords, asked, if_neg (by decide), ruleWords]
  simp only [rows, List.flatMap_cons, List.flatMap_nil, List.append_nil, List.append_assoc,
    zone_gives, zone_text, name_zoneRow]
  rfl

private theorem unbroken_savedWords (asked : t.has Flag.byAlias = false)
    (helper : Unbroken t.helper) (timeout : Unbroken t.timeout) :
    ∀ w ∈ t.savedWords, Unbroken w := by
  have names : ∀ e ∈ fullTable, Unbroken ("--" ++ e.name) := by decide
  have texts (e : Entry) : Unbroken (t.text e) := by
    unfold text
    split
    · exact helper
    · exact EventTable.unbroken_display EventTable.sound_connection _
    · exact EventTable.unbroken_display EventTable.sound_expectation _
    · exact timeout
    · split
      · decide
      · exact (solid_decimal _).2
  have shown_words {given : Bool} {ws : List String} (unbroken : ∀ w ∈ ws, Unbroken w) :
      ∀ w ∈ shown given false ws, Unbroken w := by
    intro w hw
    cases given with
    | false => cases hw
    | true => exact unbroken w hw
  intro w hw
  rw [savedWords_rows asked] at hw
  rcases List.mem_append.mp hw with hw | hw
  · exact shown_words (by decide) w hw
  · obtain ⟨e, row, hw⟩ := List.mem_flatMap.mp hw
    refine shown_words (fun v hv => ?_) w hw
    rcases List.mem_pair.mp hv with rfl | rfl
    · exact names e (t.rows_full row)
    · exact texts e

private theorem tokens_saved (host : Context) (asked : t.has Flag.byAlias = false)
    (helper : Unbroken t.helper) (timeout : Unbroken t.timeout) :
    tokens ((Extension.connTrack t).saved host) =
      shown (t.has Flag.untracked) false ["--notrack"] ++
        t.rows.flatMap (textTokens t.gives t.text) := by
  have cut : tokens ((Extension.connTrack t).saved host) = t.savedWords.filter (· != "") :=
    tokens_render_of_unbroken (unbroken_savedWords asked helper timeout)
  have flag : (shown (t.has Flag.untracked) false ["--notrack"]).filter (· != "") =
      shown (t.has Flag.untracked) false ["--notrack"] := by
    cases t.has Flag.untracked <;> decide
  rw [cut, savedWords_rows asked, List.filter_append, flag, List.filter_flatMap]
  rfl

variable {host : Context} {again : Extension} {seen : Register}

private theorem excluded_rows (t : ConnTrack) : ∀ e ∈ t.rows,
    ¬ (Register.empty.add notrackRow).Misses (e.bit ||| e.excluded) := by
  have others : ∀ e ∈ fullTable,
      ¬ (Register.empty.add notrackRow).Misses (e.bit ||| e.excluded) := by decide
  exact fun e row => others e (t.rows_full row)

private theorem saved_untracked (untracked : t.has Flag.untracked = true)
    (asked : t.has Flag.byAlias = false)
    (accepted : (Extension.connTrack (create t.revision)).applyTokens host
      ("--notrack" :: t.rows.flatMap (textTokens t.gives t.text)) = (again, .ok seen)) :
    again.savedWords host = t.savedWords := by
  have row : notrackRow ∈ fullTable := by decide
  have grammar := (Extension.connTrack (create t.revision)).legible_grammar
  have read := accepted
  rw [Extension.applyTokens_eq_resume] at read
  obtain ⟨argument, operand, next, later, cut, admitted, -, rest⟩ :=
    Extension.resume_option false grammar row read
  have flag : argument = none := by
    have takes : argument.isSome = false := admitted.argument
    simpa using takes
  rw [flag] at cut
  rw [← show t.rows.flatMap (textTokens t.gives t.text) = later from cut] at rest
  have hidden := Extension.hidden_of_excluded grammar t.rows_full t.excluded_rows rest
  have none : t.rows.flatMap (textTokens t.gives t.text) = [] := by
    refine List.flatMap_eq_nil_iff.mpr fun e row => ?_
    simp [textTokens, hidden e row, shown]
  have words : t.savedWords = ["--notrack"] := by
    rw [savedWords_rows asked, untracked, List.flatMap_eq_nil_iff.mpr]
    · rfl
    · intro e row
      simp [hidden e row, shown]
  obtain ⟨_, back⟩ := restored_untracked host t.revision
  rw [none, back] at accepted
  rw [← (Prod.mk.inj accepted).1, words]
  exact untracked_words t.revision

private theorem unlisted_name : ∀ e ∈ fullTable,
    (EventTable.connection.read ("--" ++ e.name)).isOk = false ∧
      (EventTable.expectation.read ("--" ++ e.name)).isOk = false := by
  decide

private structure Takes (revision : UInt8) (e : Entry) (text : String) : Prop where
  events : e.id = Id.events → (EventTable.connection.read text).isOk = true
  expectations : e.id = Id.expectations → (EventTable.expectation.read text).isOk = true
  helper : e.id = Id.helper → (Utf8.encode text.toList).length < helperWidth
  timeout : e.id = Id.timeout → (Utf8.encode text.toList).length < timeoutWidth
  room : ∀ direction, direction? e.id = some direction → direction ≠ 0 → revision ≠ 0

private theorem takes_of_step (step : Step b o next)
    (written : ∀ text, o.operand = .text text → o.rawArgument = text) :
    Takes b.revision o.entry o.rawArgument := by
  cases step with
  | notrack id => constructor <;> simp [id, direction?]
  | zoneMark stated room | zoneNumber stated room =>
    have other {id : Nat} (plain : direction? id = none) : o.entry.id ≠ id := by
      intro same
      rw [same, plain] at stated
      cases stated
    exact
      { events := fun id => absurd id (other rfl)
        expectations := fun id => absurd id (other rfl)
        helper := fun id => absurd id (other rfl)
        timeout := fun id => absurd id (other rfl)
        room := fun _ known => Option.some.inj (stated.symm.trans known) ▸ room }
  | events id operand read | expectations id operand read =>
    rw [written _ operand]
    have accepted : _ = true := congrArg Except.isOk read
    constructor <;>
      simp [id, Id.events, Id.expectations, Id.helper, Id.timeout, direction?, accepted]
  | helper id operand short | timeout id _ operand short =>
    rw [written _ operand]
    constructor <;> simp [id, Id.events, Id.expectations, Id.helper, Id.timeout, direction?, short]

private def Going (revision : UInt8) (ext : Extension) : Prop :=
  ∃ b, ext = .connTrack b ∧ b.revision = revision

private theorem going_apply {revision : UInt8} {current next : Extension}
    (going : Going revision current) (ok : current.apply host o = (next, .ok ())) :
    Going revision next := by
  obtain ⟨b, rfl, same⟩ := going
  obtain ⟨made, applied, rfl⟩ := Extension.map_connTrack_ok ok
  exact ⟨made, rfl, (revision_step (step_of_apply applied)).trans same⟩

private theorem rows_text (t : ConnTrack) : ∀ e ∈ t.rows, e.kind = .text := by
  have zone := (zoneRow_fits t.direction t.direction_known).2.1
  simp only [rows, List.forall_mem_cons]
  exact ⟨rfl, rfl, rfl, zone, rfl, by simp⟩

private theorem takes_rows (t : ConnTrack) : ∀ e ∈ t.rows, e.takesArgument = true := by
  intro e row
  rw [Entry.takesArgument, t.rows_text e row]
  decide

section Tracked

variable (accepted : (Extension.connTrack (create t.revision)).applyTokens host
  (t.rows.flatMap (textTokens t.gives t.text)) = (again, .ok seen))
include accepted

private theorem filled_rows : ∀ e ∈ t.rows, t.gives e = true → t.text e ≠ "" := by
  refine Extension.filled_of_rows (Going t.revision)
    (Extension.connTrack (create t.revision)).legible_grammar t.rows_full t.takes_rows ?_
    going_apply ⟨create t.revision, rfl, rfl⟩ accepted
  rintro e row given empty other member _ next before operand ⟨b, rfl, -⟩ admitted ok
  obtain ⟨made, applied, -⟩ := Extension.map_connTrack_ok ok
  obtain ⟨no_event, no_expectation⟩ := unlisted_name other (t.rows_full member)
  have takes : Takes b.revision e ("--" ++ other.name) :=
    takes_of_step (step_of_apply applied) fun text operand => by
      simp [Occurrence.rawArgument, admitted.argument_of_text operand]
  -- A helper or timeout shows only with a name, and a zone always has a text, so of the five only
  -- the two lists of events can be without one.
  simp only [rows, List.mem_cons, List.not_mem_nil, or_false] at row
  rcases row with rfl | rfl | rfl | rfl | rfl
  · have some_text : (t.helper != "") = true := given
    exact absurd empty (bne_iff_ne.mp some_text)
  · exact absurd ((takes.events rfl).symm.trans no_event) (by decide)
  · exact absurd ((takes.expectations rfl).symm.trans no_expectation) (by decide)
  · rw [t.zoneRow_row.2] at empty
    split at empty
    · exact absurd empty (by decide)
    · exact absurd empty (solid_decimal _).1
  · have some_text : (decide (1 ≤ t.revision) && t.timeout != "") = true := given
    exact absurd empty (bne_iff_ne.mp (Bool.and_eq_true_iff.mp some_text).2)

private theorem taken_rows (row : e ∈ t.rows) (given : t.gives e = true) :
    Takes t.revision e (t.text e) := by
  have filled := filled_rows accepted
  have words : t.rows.flatMap (textTokens t.gives t.text) = t.rows.flatMap fun e =>
      shown (t.gives e) false (("--" ++ e.name) :: (some (t.text e)).toList) := by
    refine List.flatMap_congr fun e row => ?_
    cases given : t.gives e with
    | false => simp [textTokens, given, shown]
    | true => simp [textTokens, given, shown, filled e row given]
  rw [words, Extension.applyTokens_eq_resume] at accepted
  have takes : ∀ e ∈ t.rows, t.gives e = true → (some (t.text e)).isSome = e.takesArgument :=
    fun e row _ => (t.takes_rows e row).symm
  obtain ⟨_, operand, _, before, ⟨b, rfl, same⟩, admitted, ok⟩ :=
    Extension.taken_of_rows (Going t.revision)
      (Extension.connTrack (create t.revision)).legible_grammar t.rows_full takes going_apply
      ⟨create t.revision, rfl, rfl⟩ accepted e row given
  obtain ⟨made, applied, -⟩ := Extension.map_connTrack_ok ok
  rw [← same]
  refine takes_of_step (step_of_apply applied) fun text operand => ?_
  simp [Occurrence.rawArgument, admitted.argument_of_text operand]

private theorem short_helper : (Utf8.encode t.helper.toList).length < helperWidth := by
  by_cases none : t.helper = ""
  · rw [none]
    decide
  · have given : (t.helper != "") = true := bne_iff_ne.mpr none
    have takes : Takes t.revision helperRow t.helper := taken_rows accepted (by simp [rows]) given
    exact takes.helper rfl

private theorem short_timeout (first : t.revision = 0 → t.timeout = "") :
    (Utf8.encode t.timeout.toList).length < timeoutWidth := by
  by_cases none : t.timeout = ""
  · rw [none]
    decide
  · have later : 1 ≤ t.revision := one_le_of_ne_zero fun zero => none (first zero)
    have given : (decide (1 ≤ t.revision) && t.timeout != "") = true := by simp [later, none]
    have takes : Takes t.revision timeoutRow t.timeout := taken_rows accepted (by simp [rows]) given
    exact takes.timeout rfl

private theorem shape_visible : ∃ direction mark, ZoneShape t.visible direction mark := by
  cases shows : t.showsZone with
  | false =>
    refine ⟨0, 0, by simp, by simp, by simp [visible, shows], fun nonzero => absurd rfl nonzero,
      fun nonzero => absurd rfl nonzero⟩
  | true =>
    refine ⟨t.direction, if t.has Flag.zoneMark then Flag.zoneMark else 0, t.direction_known, ?_,
      by simp [visible, shows], ?_, ?_⟩
    · split <;> simp
    · intro marked
      have mark : t.has Flag.zoneMark = true := by
        by_contra plain
        exact marked (if_neg plain)
      exact if_pos mark
    · intro directed
      have takes := taken_rows accepted (e := zoneRow t.direction) (by simp [rows])
        (t.zoneRow_row.1.trans shows)
      have stated := (zoneRow_fits t.direction t.direction_known).2.2.1
      exact takes.room t.direction stated directed

private theorem expressible_visible (helper : Unbroken t.helper) (timeout : Unbroken t.timeout)
    (first : t.revision = 0 → t.timeout = "") : t.visible.Expressible := by
  have helper_fits := short_helper accepted
  have timeout_fits := short_timeout accepted first
  exact
    { zone := shape_visible accepted
      events := EventTable.composed_and_bitsOf EventTable.single_connection t.events
      expectations := EventTable.composed_and_bitsOf EventTable.single_expectation t.expectations
      helper := ⟨helper, helper_fits⟩
      timeout := ⟨timeout, timeout_fits⟩
      first := first
      asked := rfl }

end Tracked

private theorem flags_visible (t : ConnTrack) : t.visible.has Flag.untracked = false ∧
    t.visible.has Flag.byAlias = false ∧ t.visible.showsZone = t.showsZone ∧
    (t.showsZone = true → "--zone" ++ t.visible.directionSuffix = "--zone" ++ t.directionSuffix ∧
      t.visible.has Flag.zoneMark = t.has Flag.zoneMark) := by
  cases shows : t.showsZone with
  | false =>
    obtain ⟨plain, none⟩ := Bool.or_eq_false_iff.mp shows
    have zone : t.zone = 0 := by simpa using none
    have flags : t.visible.flags = 0 := by simp [visible, shows]
    have zone_visible : t.visible.zone = 0 := by simp [visible, plain, zone]
    simp [has, showsZone, flags, zone_visible]
  | true =>
    have known := flagged_zone t.direction t.direction_known
      (if t.has Flag.zoneMark then Flag.zoneMark else 0) (by split <;> simp)
    have flags : t.visible.flags =
        t.direction ||| if t.has Flag.zoneMark then Flag.zoneMark else 0 := if_pos shows
    rw [← flags] at known
    obtain ⟨suffix, marked, untracked, asked⟩ := known
    have mark : t.visible.has Flag.zoneMark = t.has Flag.zoneMark := by
      have some_flag : Flag.zoneMark ≠ 0 := by decide
      refine Eq.trans marked ?_
      cases t.has Flag.zoneMark <;> simp [some_flag]
    refine ⟨untracked, asked, ?_, fun _ => ⟨suffix.trans t.name_zoneRow.symm, mark⟩⟩
    rw [showsZone, mark, ← shows, showsZone]
    cases marks : t.has Flag.zoneMark with
    | true => rfl
    | false => simp [visible, marks]

private theorem eventWords {table : EventTable} (sound : table.Sound) {bits : UInt32}
    (filled : bits ≠ 0 → table.display bits ≠ "") (name : String) :
    shown (bits &&& bitsOf table != 0) false [name, table.display (bits &&& bitsOf table)] =
      shown (bits != 0) false [name, table.display bits] := by
  rw [EventTable.display_and_bitsOf sound]
  by_cases none : bits = 0
  · simp [none, shown]
  · have named := EventTable.and_bitsOf_ne_zero sound (filled none)
    rw [bne_iff_ne.mpr named, bne_iff_ne.mpr none]

private theorem savedWords_visible (asked : t.has Flag.byAlias = false)
    (tracked : t.has Flag.untracked = false)
    (events : t.events ≠ 0 → EventTable.connection.display t.events ≠ "")
    (expectations : t.expectations ≠ 0 → EventTable.expectation.display t.expectations ≠ "") :
    t.visible.savedWords = t.savedWords := by
  obtain ⟨tracked_visible, asked_visible, shows, zone⟩ := t.flags_visible
  have event_words := eventWords EventTable.sound_connection events "--ctevents"
  have expectation_words := eventWords EventTable.sound_expectation expectations "--expevents"
  have zone_words : shown t.showsZone false ["--zone" ++ t.visible.directionSuffix,
        if t.visible.has Flag.zoneMark then "mark" else Numeral.decimal t.visible.zone.toNat] =
      shown t.showsZone false ["--zone" ++ t.directionSuffix,
        if t.has Flag.zoneMark then "mark" else Numeral.decimal t.zone.toNat] := by
    cases given : t.showsZone with
    | false => rfl
    | true =>
      obtain ⟨suffix, mark⟩ := zone given
      rw [suffix, mark]
      cases marks : t.has Flag.zoneMark with
      | true => rfl
      | false => simp [visible, marks]
  have shows_zone : (t.visible.has Flag.zoneMark || t.visible.zone != 0) = t.showsZone := shows
  have shown_zone : (t.has Flag.zoneMark || t.zone != 0) = t.showsZone := rfl
  rw [savedWords, savedWords, asked, asked_visible, if_neg (by decide), if_neg (by decide),
    ruleWords, ruleWords, tracked, tracked_visible, shows_zone, shown_zone]
  exact congrArg₂ _ (congrArg₂ _ (congrArg₂ _ (congrArg₂ _ rfl event_words) expectation_words)
    zone_words) rfl

private theorem kept_visible (t : ConnTrack) : t.visible.kept = t.visible := by
  obtain ⟨tracked, -, shows, -⟩ := t.flags_visible
  have flags : (if t.showsZone then t.visible.flags else 0) = t.visible.flags := by
    cases given : t.showsZone with
    | false => simp [visible, given]
    | true => rfl
  rw [kept, tracked, shows, Bool.false_or, flags]

variable {host : Context} {again : Extension} {seen : Register}

theorem saved_of_accepted (helper : Unbroken t.helper)
    (timeout : Unbroken t.timeout) (first : t.revision = 0 → t.timeout = "")
    (accepted : (Extension.connTrack (create t.revision)).applyTokens host
      (tokens ((Extension.connTrack t).saved host)) = (again, .ok seen)) :
    again.saved host = (Extension.connTrack t).saved host := by
  cases asked : t.has Flag.byAlias with
  | true =>
    have words : (Extension.connTrack t).savedWords host = [] := if_pos asked
    rw [Extension.saved, words] at accepted
    obtain ⟨rfl, -⟩ := Extension.applyTokens_nil_iff.mp accepted
    have blank : (create t.revision).savedWords = [] := by
      simp [savedWords, ruleWords, has, create, shown]
    have same : (Extension.connTrack (create t.revision)).savedWords host = [] := blank
    rw [Extension.saved, Extension.saved, words, same]
  | false =>
    have cut := tokens_saved host asked helper timeout
    cases untracked : t.has Flag.untracked with
    | true =>
      rw [cut, untracked] at accepted
      exact congrArg render (saved_untracked untracked asked accepted)
    | false =>
      have read := accepted
      rw [cut, untracked] at read
      have filled := filled_rows read
      have words : t.visible.savedWords = t.savedWords :=
        savedWords_visible asked untracked
          (fun some_event => filled eventsRow (by simp [rows]) (bne_iff_ne.mpr some_event))
          (fun some_event => filled expectationsRow (by simp [rows]) (bne_iff_ne.mpr some_event))
      have same : (Extension.connTrack t.visible).saved host = (Extension.connTrack t).saved host :=
        congrArg render words
      obtain ⟨_, back⟩ := restored host (expressible_visible read helper timeout first)
      rw [same, kept_visible] at back
      rw [← same, (Prod.mk.inj (accepted.symm.trans back)).1]

end FilterRecord.ConnTrack
