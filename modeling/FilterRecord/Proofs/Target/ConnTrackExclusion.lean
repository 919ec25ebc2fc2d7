/- Proofs/Target/ConnTrackExclusion
   digest: In the record of an accepted CT rule no part stands beside one that its option excludes. -/

import Mathlib.Data.List.Induction
import FilterRecord.Proofs.Arguments.Given
import FilterRecord.Proofs.Target.ConnTrackSaved

set_option autoImplicit false
set_option relaxedAutoImplicit false

namespace FilterRecord.ConnTrack

open Text
open Options (Apart Given Occurrence Register Together given_append not_given_nil)

/-- The flags that an option may set: the flag of the alias is not one of them. -/
def optionFlags : UInt16 := Flag.untracked ||| Flag.initial ||| Flag.reply ||| Flag.zoneMark

def directions : UInt16 := Flag.initial ||| Flag.reply

/-- The record of a rule with some options, in which no part stands beside one that it rules out. -/
structure WellFormed (options : List Occurrence) (t : ConnTrack) : Prop where
  untracked : t.has Flag.untracked = true → t.flags = Flag.untracked ∧ t.zone = 0 ∧ t.events = 0 ∧
    t.expectations = 0 ∧ t.helper = "" ∧ t.timeout = ""
  direction : ¬ (t.has Flag.initial = true ∧ t.has Flag.reply = true)
  zoneMark : t.has Flag.zoneMark = true → t.zone = 0
  flags : t.flags &&& ~~~optionFlags = 0
  events : t.events &&& bitsOf EventTable.connection = t.events ∧
    (t.events ≠ 0 ↔ ∃ o ∈ options, o.entry.name = "ctevents")
  expectations : t.expectations &&& bitsOf EventTable.expectation = t.expectations ∧
    (t.expectations ≠ 0 ↔ ∃ o ∈ options, o.entry.name = "expevents")
  helper : (Utf8.encode t.helper.toList).length ≤ 15
  timeout : (Utf8.encode t.timeout.toList).length ≤ 31
  first : t.revision = 0 → t.flags &&& directions = 0 ∧ t.timeout = ""

/-! What one option adds to a record. -/

def setFlags (o : Occurrence) : UInt16 :=
  match direction? o.entry.id with
  | some direction =>
    direction ||| if sameLetters o.rawArgument "mark" then Flag.zoneMark else 0
  | none => if o.entry.id = Id.notrack then Flag.untracked else 0

/-- A zone option whose argument is a number. -/
def StatesNumber (o : Occurrence) : Prop :=
  direction? o.entry.id ≠ none ∧ sameLetters o.rawArgument "mark" = false

variable {t next : ConnTrack} {o : Occurrence} {options : List Occurrence}

private theorem origin_of_flag {flag : UInt16} (met : setFlags o &&& flag ≠ 0) :
    (o.entry.id = Id.notrack ∧ Flag.untracked &&& flag ≠ 0) ∨
    ∃ direction, direction? o.entry.id = some direction ∧ (direction &&& flag ≠ 0 ∨
      sameLetters o.rawArgument "mark" = true ∧ Flag.zoneMark &&& flag ≠ 0) := by
  unfold setFlags at met
  split at met
  · rename_i direction stated
    refine .inr ⟨direction, stated, ?_⟩
    by_cases mark : sameLetters o.rawArgument "mark" = true
    · rw [if_pos mark, ne_eq, halfword_or_and_eq_zero_iff, not_and_or] at met
      exact met.imp_right fun set => ⟨mark, set⟩
    · rw [if_neg mark, UInt16.or_zero] at met
      exact .inl met
  · split at met
    · rename_i id
      exact .inl ⟨id, met⟩
    · exact absurd UInt16.zero_and met

private theorem direction_apart {id : Nat} {direction : UInt16}
    (stated : direction? id = some direction) :
    direction &&& Flag.untracked = 0 ∧ direction &&& Flag.zoneMark = 0 ∧
      direction &&& ~~~optionFlags = 0 ∧
      ∀ flag, flag = Flag.initial ∨ flag = Flag.reply → direction &&& flag ≠ 0 →
        direction = flag := by
  have zones : ∀ direction ∈ [0, Flag.initial, Flag.reply],
      direction &&& Flag.untracked = 0 ∧ direction &&& Flag.zoneMark = 0 ∧
        direction &&& ~~~optionFlags = 0 ∧
        (direction &&& Flag.initial ≠ 0 → direction = Flag.initial) ∧
        (direction &&& Flag.reply ≠ 0 → direction = Flag.reply) := by
    simp only [List.forall_mem_cons, List.not_mem_nil, false_implies, implies_true, and_true]
    decide
  obtain ⟨untracked, mark, within, initial, reply⟩ := zones direction (direction_mem stated)
  refine ⟨untracked, mark, within, ?_⟩
  rintro flag (rfl | rfl)
  · exact initial
  · exact reply

private theorem flags_step (step : Step t o next) : next.flags = t.flags ||| setFlags o := by
  cases step with
  | notrack id => simp [setFlags, id, direction?]
  | zoneMark stated _ mark => simp [setFlags, stated, mark, UInt16.or_assoc]
  | zoneNumber stated _ number => simp [setFlags, stated, number]
  | events id | expectations id | helper id | timeout id => simp [setFlags, id, direction?]

private theorem zone_step (step : Step t o next) (filled : next.zone ≠ 0) :
    t.zone ≠ 0 ∨ StatesNumber o := by
  cases step with
  | zoneMark => exact absurd rfl filled
  | zoneNumber stated _ number => exact .inr ⟨by simp [stated], number⟩
  | notrack | events | expectations | helper | timeout => exact .inl filled

private theorem id_ne_of_direction {direction : UInt16} {id : Nat}
    (stated : direction? o.entry.id = some direction) (other : direction? id = none) :
    o.entry.id ≠ id := by
  rintro rfl
  exact absurd (stated.symm.trans other) (by simp)

private theorem events_step (step : Step t o next) :
    next.events ≠ 0 ↔ t.events ≠ 0 ∨ o.entry.id = Id.events := by
  cases step with
  | events id _ read =>
    have filled := EventTable.ne_zero_of_read (t := .connection) (by decide) read
    exact ⟨fun _ => .inr id, fun _ => filled⟩
  | zoneMark stated | zoneNumber stated =>
    have other : o.entry.id ≠ Id.events := id_ne_of_direction stated rfl
    simp [other]
  | notrack id | expectations id | helper id | timeout id =>
    have other : o.entry.id ≠ Id.events := by
      rw [id]
      decide
    simp [other]

private theorem expectations_step (step : Step t o next) :
    next.expectations ≠ 0 ↔ t.expectations ≠ 0 ∨ o.entry.id = Id.expectations := by
  cases step with
  | expectations id _ read =>
    have filled := EventTable.ne_zero_of_read (t := .expectation) (by decide) read
    exact ⟨fun _ => .inr id, fun _ => filled⟩
  | zoneMark stated | zoneNumber stated =>
    have other : o.entry.id ≠ Id.expectations := id_ne_of_direction stated rfl
    simp [other]
  | notrack id | events id | helper id | timeout id =>
    have other : o.entry.id ≠ Id.expectations := by
      rw [id]
      decide
    simp [other]

private theorem helper_step (step : Step t o next) (filled : next.helper ≠ "") :
    t.helper ≠ "" ∨ o.entry.id = Id.helper := by
  cases step with
  | helper id => exact .inr id
  | notrack | zoneMark | zoneNumber | events | expectations | timeout => exact .inl filled

private theorem timeout_step (step : Step t o next) (filled : next.timeout ≠ "") :
    t.timeout ≠ "" ∨ o.entry.id = Id.timeout := by
  cases step with
  | timeout id => exact .inr id
  | notrack | zoneMark | zoneNumber | events | expectations | helper => exact .inl filled

/-! What a run of options leaves. -/

def allFlags (options : List Occurrence) : UInt16 :=
  options.foldl (fun flags o => flags ||| setFlags o) 0

theorem allFlags_append : allFlags (options ++ [o]) = allFlags options ||| setFlags o := by
  simp [allFlags]

theorem allFlags_apart {mask : UInt16} (apart : ∀ o ∈ options, setFlags o &&& mask = 0) :
    allFlags options &&& mask = 0 := by
  induction options using List.reverseRecOn with
  | nil => simp [allFlags]
  | append_singleton rest o ih =>
    have tail := ih fun p member => apart p (by simp [member])
    rw [allFlags_append, halfword_or_and_eq_zero_iff]
    exact ⟨tail, apart o (by simp)⟩

theorem allFlags_alone (member : o ∈ options) (alone : ∀ p ∈ options, p = o) :
    allFlags options = setFlags o := by
  induction options using List.reverseRecOn with
  | nil => exact absurd member (by simp)
  | append_singleton rest p ih =>
    rw [allFlags_append, alone p (by simp)]
    cases rest with
    | nil => simp [allFlags]
    | cons q rest =>
      have first : q = o := alone q (by simp)
      rw [ih (by simp [first]) fun r known => alone r (List.mem_append_left _ known),
        UInt16.or_self]

/-- Each part of a record comes from one of some options, and its layout has room for it. -/
structure Accounted (options : List Occurrence) (t : ConnTrack) : Prop where
  flags : t.flags = allFlags options
  zone : t.zone ≠ 0 → ∃ o ∈ options, StatesNumber o
  events : t.events ≠ 0 ↔ Given options Id.events
  expectations : t.expectations ≠ 0 ↔ Given options Id.expectations
  helper : t.helper ≠ "" → Given options Id.helper
  timeout : t.timeout ≠ "" → Given options Id.timeout
  connection : EventTable.connection.Composed t.events
  expectation : EventTable.expectation.Composed t.expectations
  short : (Utf8.encode t.helper.toList).length < helperWidth ∧
    (Utf8.encode t.timeout.toList).length < timeoutWidth
  first : t.revision = 0 → t.flags &&& directions = 0 ∧ t.timeout = ""

theorem accounted_create (revision : UInt8) : Accounted [] (create revision) where
  flags := rfl
  zone := by simp [create]
  events := by simp [create, not_given_nil]
  expectations := by simp [create, not_given_nil]
  helper := by simp [create]
  timeout := by simp [create]
  connection := ⟨by simp [create], fun row _ => .inl (by simp [create])⟩
  expectation := ⟨by simp [create], fun row _ => .inl (by simp [create])⟩
  short := by simp [create, Utf8.encode, helperWidth, timeoutWidth]
  first := by simp [create]

private theorem room_step (step : Step t o next)
    (first : t.revision = 0 → t.flags &&& directions = 0 ∧ t.timeout = "") :
    next.revision = 0 → next.flags &&& directions = 0 ∧ next.timeout = "" := by
  have upright : Flag.untracked &&& directions = 0 ∧ Flag.zoneMark &&& directions = 0 := by decide
  -- Revision 0 has room for a zone option without a direction only.
  have undirected {direction : UInt16} (room : direction ≠ 0 → t.revision ≠ 0)
      (zero : t.revision = 0) : direction = 0 := by
    by_contra some_direction
    exact room some_direction zero
  intro zero
  rw [revision_step step] at zero
  obtain ⟨flags, timeout⟩ := first zero
  cases step with
  | notrack => exact ⟨halfword_or_and_eq_zero_iff.mpr ⟨flags, upright.1⟩, timeout⟩
  | zoneMark _ room =>
    refine ⟨halfword_or_and_eq_zero_iff.mpr ⟨?_, upright.2⟩, timeout⟩
    simpa [undirected room zero] using flags
  | zoneNumber _ room =>
    refine ⟨?_, timeout⟩
    simpa [undirected room zero] using flags
  | timeout _ later => exact absurd zero later
  | events | expectations | helper => exact ⟨flags, timeout⟩

theorem accounted_step (accounted : Accounted options t) (step : Step t o next) :
    Accounted (options ++ [o]) next where
  flags := by rw [flags_step step, accounted.flags, allFlags_append]
  zone filled := by
    rcases zone_step step filled with before | here
    · obtain ⟨p, member, states⟩ := accounted.zone before
      exact ⟨p, List.mem_append_left _ member, states⟩
    · exact ⟨o, by simp, here⟩
  events := by rw [events_step step, accounted.events, given_append]
  expectations := by rw [expectations_step step, accounted.expectations, given_append]
  helper filled := given_append.mpr ((helper_step step filled).imp_left accounted.helper)
  timeout filled := given_append.mpr ((timeout_step step filled).imp_left accounted.timeout)
  connection := by
    cases step with
    | events _ _ read => exact EventTable.composed_union EventTable.sound_connection read
    | notrack | zoneMark | zoneNumber | expectations | helper | timeout =>
      exact accounted.connection
  expectation := by
    cases step with
    | expectations _ _ read => exact EventTable.composed_union EventTable.sound_expectation read
    | notrack | zoneMark | zoneNumber | events | helper | timeout => exact accounted.expectation
  short := by
    cases step with
    | helper _ _ short => exact ⟨short, accounted.short.2⟩
    | timeout _ _ _ short => exact ⟨accounted.short.1, short⟩
    | notrack | zoneMark | zoneNumber | events | expectations => exact accounted.short
  first := room_step step accounted.first

theorem accounted_applyTokens {host : Context} {revision : UInt8} {words : List String}
    {ext : Extension} {final : Register}
    (accepted : (Extension.connTrack (create revision)).applyTokens host words =
      (ext, .ok final)) : ∃ t, ext = .connTrack t ∧ t.revision = revision ∧
        Accounted ((Extension.connTrack (create revision)).grammar.read words).occurrences t := by
  refine Extension.applyTokens_induction (P := fun options _ current => ∃ t,
    current = .connTrack t ∧ t.revision = revision ∧ Accounted options t) accepted
    ⟨create revision, rfl, rfl, accounted_create revision⟩ ?_
  rintro _ _ _ next o ⟨t, rfl, same, accounted⟩ - admitted taken
  obtain ⟨made, applied, rfl⟩ := Extension.map_connTrack_ok taken
  have step := step_of_apply applied
  exact ⟨made, rfl, (revision_step step).trans same, accounted_step accounted step⟩

/-! What options that may stand together leave. -/

/-- Options of a CT rule of which no two exclude each other. -/
structure Compatible (options : List Occurrence) : Prop where
  rows : ∀ o ∈ options, o.entry ∈ fullTable
  together : ∀ o ∈ options, ∀ p ∈ options, o = p ∨ Together o p

private theorem row_excludes : ∀ e ∈ fullTable, ∀ other ∈ fullTable,
    (e.id = Id.notrack ∨ direction? e.id ≠ none ∧ direction? other.id ≠ none) →
      ¬ Apart e other ∧ ¬ Apart other e := by
  decide

namespace Compatible

variable (compatible : Compatible options) {p : Occurrence}
include compatible

theorem alone (member : o ∈ options) (id : o.entry.id = Id.notrack) : ∀ p ∈ options, p = o := by
  intro p known
  have excluded := row_excludes _ (compatible.rows o member) _ (compatible.rows p known) (.inl id)
  rcases compatible.together o member p known with same | apart | apart
  · exact same.symm
  · exact absurd apart excluded.1
  · exact absurd apart excluded.2

theorem one_zone (first : o ∈ options) (second : p ∈ options)
    (stated : direction? o.entry.id ≠ none) (stated' : direction? p.entry.id ≠ none) : o = p := by
  have excluded := row_excludes _ (compatible.rows o first) _ (compatible.rows p second)
    (.inr ⟨stated, stated'⟩)
  rcases compatible.together o first p second with same | apart | apart
  · exact same
  · exact absurd apart excluded.1
  · exact absurd apart excluded.2

end Compatible

private theorem exists_of_has (accounted : Accounted options t) {flag : UInt16}
    (given : t.has flag = true) : ∃ o ∈ options, setFlags o &&& flag ≠ 0 := by
  by_contra none
  have apart : ∀ o ∈ options, setFlags o &&& flag = 0 := by
    intro o member
    by_contra met
    exact none ⟨o, member, met⟩
  rw [has, accounted.flags, allFlags_apart apart] at given
  exact absurd given (by decide)

private theorem notrack_of_flag (met : setFlags o &&& Flag.untracked ≠ 0) :
    o.entry.id = Id.notrack := by
  rcases origin_of_flag met with ⟨id, -⟩ | ⟨direction, stated, set | ⟨-, set⟩⟩
  · exact id
  · exact absurd (direction_apart stated).1 set
  · exact absurd (by decide) set

private theorem direction_of_flag {flag : UInt16}
    (directed : flag = Flag.initial ∨ flag = Flag.reply) (met : setFlags o &&& flag ≠ 0) :
    direction? o.entry.id = some flag := by
  have others : Flag.untracked &&& flag = 0 ∧ Flag.zoneMark &&& flag = 0 := by
    rcases directed with rfl | rfl
    · decide
    · decide
  rcases origin_of_flag met with ⟨-, set⟩ | ⟨direction, stated, set | ⟨-, set⟩⟩
  · exact absurd others.1 set
  · rw [stated, (direction_apart stated).2.2.2 flag directed set]
  · exact absurd others.2 set

private theorem mark_of_flag (met : setFlags o &&& Flag.zoneMark ≠ 0) :
    direction? o.entry.id ≠ none ∧ sameLetters o.rawArgument "mark" = true := by
  rcases origin_of_flag met with ⟨-, set⟩ | ⟨direction, stated, set | ⟨mark, -⟩⟩
  · exact absurd (by decide) set
  · exact absurd (direction_apart stated).2.1 set
  · exact ⟨by simp [stated], mark⟩

private theorem setFlags_within (o : Occurrence) : setFlags o &&& ~~~optionFlags = 0 := by
  by_contra met
  rcases origin_of_flag met with ⟨-, set⟩ | ⟨direction, stated, set | ⟨-, set⟩⟩
  · exact absurd (by decide) set
  · exact absurd (direction_apart stated).2.2.1 set
  · exact absurd (by decide) set

private theorem untracked_alone (accounted : Accounted options t) (compatible : Compatible options)
    (given : t.has Flag.untracked = true) : t.flags = Flag.untracked ∧ t.zone = 0 ∧
      t.events = 0 ∧ t.expectations = 0 ∧ t.helper = "" ∧ t.timeout = "" := by
  obtain ⟨o, member, met⟩ := exists_of_has accounted given
  have id := notrack_of_flag met
  have alone := compatible.alone member id
  have only {other : Nat} (some_other : Given options other) : other = Id.notrack := by
    obtain ⟨p, known, rfl⟩ := some_other
    rw [alone p known, id]
  refine ⟨?_, ?_, ?_, ?_, ?_, ?_⟩
  · rw [accounted.flags, allFlags_alone member alone]
    simp [setFlags, id, direction?]
  · by_contra filled
    obtain ⟨p, known, stated, -⟩ := accounted.zone filled
    rw [alone p known, id] at stated
    exact stated rfl
  · by_contra filled
    exact absurd (only (accounted.events.mp filled)) (by decide)
  · by_contra filled
    exact absurd (only (accounted.expectations.mp filled)) (by decide)
  · by_contra filled
    exact absurd (only (accounted.helper filled)) (by decide)
  · by_contra filled
    exact absurd (only (accounted.timeout filled)) (by decide)

private theorem given_iff_named (rows : ∀ o ∈ options, o.entry ∈ fullTable) {id : Nat}
    {name : String} (named : ∀ e ∈ fullTable, e.id = id ↔ e.name = name) :
    Given options id ↔ ∃ o ∈ options, o.entry.name = name :=
  exists_congr fun o => and_congr_right fun member => named o.entry (rows o member)

theorem wellFormed_of_accounted (accounted : Accounted options t)
    (compatible : Compatible options) : WellFormed options t where
  untracked := untracked_alone accounted compatible
  direction := by
    rintro ⟨initial, reply⟩
    obtain ⟨o, first, met⟩ := exists_of_has accounted initial
    obtain ⟨p, second, met'⟩ := exists_of_has accounted reply
    have stated := direction_of_flag (.inl rfl) met
    have stated' := direction_of_flag (.inr rfl) met'
    have same := compatible.one_zone first second (by simp [stated]) (by simp [stated'])
    rw [same, stated'] at stated
    exact absurd stated (by decide)
  zoneMark given := by
    obtain ⟨o, first, met⟩ := exists_of_has accounted given
    obtain ⟨stated, mark⟩ := mark_of_flag met
    by_contra filled
    obtain ⟨p, second, stated', number⟩ := accounted.zone filled
    rw [compatible.one_zone first second stated stated'] at mark
    exact absurd (mark.symm.trans number) (by decide)
  flags := by
    rw [accounted.flags]
    exact allFlags_apart fun o _ => setFlags_within o
  events := ⟨accounted.connection.within,
    accounted.events.trans (given_iff_named compatible.rows (by decide))⟩
  expectations := ⟨accounted.expectation.within,
    accounted.expectations.trans (given_iff_named compatible.rows (by decide))⟩
  helper := Nat.le_of_lt_succ accounted.short.1
  timeout := Nat.le_of_lt_succ accounted.short.2
  first := accounted.first

theorem compatible_of_accepted {host : Context} {revision : UInt8} {words : List String}
    {ext : Extension} {final : Register}
    (accepted : (Extension.connTrack (create revision)).applyTokens host words =
      (ext, .ok final)) :
    Compatible ((Extension.connTrack (create revision)).grammar.read words).occurrences where
  rows o member := ((Extension.apart_of_accepted accepted).1 o member).entry
  together _ first _ second := Extension.eq_or_together accepted first second

/-- The record of every accepted rule is well formed: a target that turns tracking off does nothing
else, a zone has one direction at most and is a number or the packet's mark, events are stored
where their option is given, names leave room in their slots, and revision 0 stores no more than it
has room for. -/
theorem wellFormed_of_accepted {revision : Option UInt8} {r : Registration} {host : Context}
    {words : List String} {ext : Extension} {final : Register}
    (found : Registry.lookup "CT" revision = .ok r)
    (accepted : r.create.applyTokens host words = (ext, .ok final)) :
    ∃ t, ext = .connTrack t ∧ t.revision = r.revision ∧
      WellFormed (r.create.grammar.read words).occurrences t := by
  have created : r.create = .connTrack (create r.revision) :=
    Registry.create_of_lookup registered found
  rw [created] at accepted ⊢
  obtain ⟨t, rfl, same, accounted⟩ := accounted_applyTokens accepted
  exact ⟨t, rfl, same, wellFormed_of_accounted accounted (compatible_of_accepted accepted)⟩

theorem wellFormed_of_accepted_zone : ∃ r t final,
    Registry.lookup "CT" (some 2) = .ok r ∧
      r.create.applyTokens .empty ["--ctevents=new,mark", "--zone-reply", "Mark"] =
        (.connTrack t, .ok final) ∧
      t.flags = Flag.reply ||| Flag.zoneMark ∧ t.events = 0x81 ∧
      WellFormed (r.create.grammar.read ["--ctevents=new,mark", "--zone-reply", "Mark"]).occurrences
        t := by
  obtain ⟨final, accepted⟩ : ∃ final,
      (Registration.create ⟨"CT", "CT", .target, 2, .connTrack⟩).applyTokens .empty
        ["--ctevents=new,mark", "--zone-reply", "Mark"] =
          (.connTrack ⟨2, 24, 0, 0x81, 0, "", "", false⟩, .ok final) :=
    ⟨_, by with_unfolding_all rfl⟩
  have found : Registry.lookup "CT" (some 2) = .ok ⟨"CT", "CT", .target, 2, .connTrack⟩ := by
    decide
  obtain ⟨t, same, -, wellFormed⟩ := wellFormed_of_accepted found accepted
  cases same
  exact ⟨_, _, final, found, accepted, by decide, rfl, wellFormed⟩

end FilterRecord.ConnTrack
