/- Proofs/Match/ReversePathStatement
   digest: The nftables statement of an rpfilter rule expresses four conditions and drops the others. -/

import FilterRecord.Proofs.Arguments.Given
import FilterRecord.Proofs.Match.ReversePathSaved

set_option autoImplicit false
set_option relaxedAutoImplicit false

namespace FilterRecord.ReversePath

open Text
open Options (Given Occurrence Register)

/-! The conditions that a statement has words for. -/

/-- The conditions on a packet that a statement can express. -/
structure Expressed where
  acceptLocal : Bool
  validMark : Bool
  loose : Bool
  invert : Bool
deriving DecidableEq, Repr

namespace Expressed

/-- The statement of some conditions. -/
def text (c : Expressed) : String :=
  (if c.acceptLocal then "fib saddr type != local " else "") ++ "fib saddr " ++
  (if c.validMark then ". mark " else "") ++
  (if c.loose then "" else ". iif ") ++
  if c.invert then "oif 0" else "oif != 0"

def ofText (statement : String) : Expressed :=
  let terms := tokens statement
  ⟨terms.contains "type", terms.contains "mark", !terms.contains "iif",
    ["oif", "0"].isSuffixOf terms⟩

theorem ofText_text (c : Expressed) : ofText c.text = c := by
  obtain ⟨acceptLocal, validMark, loose, invert⟩ := c
  cases acceptLocal <;> cases validMark <;> cases loose <;> cases invert <;> decide +kernel

/-- Statements tell their conditions apart. -/
theorem text_inj {c other : Expressed} (same : c.text = other.text) : c = other :=
  calc c = ofText c.text := (ofText_text c).symm
    _ = ofText other.text := congrArg ofText same
    _ = other := ofText_text other

end Expressed

variable {groups : DeviceGroups} {m next other : ReversePath} {o : Occurrence}
  {options : List Occurrence}

/-- The conditions of a record that its statement can express. -/
def expressed (m : ReversePath) : Expressed :=
  ⟨m.has Flag.acceptLocal, m.has Flag.validMark, m.has Flag.loose, m.has Flag.invert⟩

theorem statement?_eq (m : ReversePath) : m.statement? =
    if m.has Flag.acceptLocal && !m.has Flag.invert then none else some m.expressed.text := rfl

theorem statement?_eq_none_iff :
    m.statement? = none ↔ m.has Flag.acceptLocal = true ∧ m.has Flag.invert = false := by
  simp [statement?_eq]

theorem expressed_eq (stated : m.statement? ≠ none) (same : m.statement? = other.statement?) :
    m.expressed = other.expressed := by
  have whole {k : ReversePath} (stated : k.statement? ≠ none) :
      k.statement? = some k.expressed.text := by
    rw [statement?_eq] at stated ⊢
    split at stated
    · exact absurd rfl stated
    · rename_i shown
      exact if_neg shown
  have text := same
  rw [whole stated, whole (same ▸ stated)] at text
  exact Expressed.text_inj (Option.some.inj text)

/-! The conditions that a statement has no words for. -/

/-- A limit on the route of a packet. -/
inductive Limit
  /-- The route is at most this long, or it is longer. -/
  | length (n : UInt8) (inverted : Bool)
  /-- The device of the route is in this group, or in no such group. -/
  | group (word : MaskedWord) (inverted : Bool)
deriving DecidableEq, Repr

def limit? (groups : DeviceGroups) (o : Occurrence) : Option Limit :=
  match o.entry.id, o.operand with
  | Id.prefixLength, .prefixLength n => some (.length n o.inverted)
  | Id.group, .text s => (groups.readMasked? s).map (.group · o.inverted)
  | _, _ => none

def Limit.id : Limit → Nat
  | length _ _ => Id.prefixLength
  | group _ _ => Id.group

def Limits (m : ReversePath) : Limit → Prop
  | .length n inverted => m.has Flag.prefixLength = true ∧ m.prefixLength = n ∧
    m.has Flag.prefixLengthInverted = inverted
  | .group word inverted => m.has Flag.group = true ∧ m.group = word ∧
    m.has Flag.groupInverted = inverted

theorem id_of_limit? {limit : Limit} (states : limit? groups o = some limit) :
    o.entry.id = limit.id := by
  unfold limit? at states
  split at states
  · rename_i id _
    cases states
    exact id
  · rename_i id _
    obtain ⟨word, -, rfl⟩ := Option.map_eq_some_iff.mp states
    exact id
  · cases states

/-! What the options of a rule leave in its record. -/

def setFlags (o : Occurrence) : UInt8 :=
  conditionFlags (mainFlag o.entry) (turnedFlag o.entry) o.inverted

private theorem flags_step (step : Step groups m o next) : next.flags = m.flags ||| setFlags o := by
  cases step with
  | loose id | validMark id | acceptLocal id | invert id | prefixLength id | group id =>
    simp [setFlags, conditionFlags, mainFlag, turnedFlag, id, withFlags]

private theorem has_step (step : Step groups m o next) (flag : UInt8) :
    next.has flag = (m.has flag || (setFlags o &&& flag != 0)) := by
  rw [← has_withFlags, has, has, flags_step step, withFlags]

/-- Each part of a record comes from one of some options. -/
structure Accounted (groups : DeviceGroups) (options : List Occurrence) (m : ReversePath) :
    Prop where
  flags : ∀ flag, m.has flag = true ↔ ∃ o ∈ options, setFlags o &&& flag ≠ 0
  length : m.has Flag.prefixLength = true →
    ∃ o ∈ options, limit? groups o = some (.length m.prefixLength o.inverted)
  group : m.has Flag.group = true →
    ∃ o ∈ options, limit? groups o = some (.group m.group o.inverted)

theorem accounted_create (revision : UInt8) : Accounted groups [] (create revision) where
  flags := by simp [create, has]
  length := by simp [create, has]
  group := by simp [create, has]

def flagIds : List (UInt8 × Nat) :=
  [(Flag.loose, Id.loose), (Flag.validMark, Id.validMark), (Flag.acceptLocal, Id.acceptLocal),
    (Flag.invert, Id.invert), (Flag.prefixLength, Id.prefixLength), (Flag.group, Id.group)]

private theorem row_sets : ∀ e ∈ table, ∀ inverted, ∀ row ∈ flagIds,
    conditionFlags (mainFlag e) (turnedFlag e) inverted &&& row.1 ≠ 0 ↔ e.id = row.2 := by
  decide

private theorem row_turns : ∀ e ∈ table, ∀ inverted,
    (conditionFlags (mainFlag e) (turnedFlag e) inverted &&& Flag.prefixLengthInverted ≠ 0 ↔
      e.id = Id.prefixLength ∧ inverted = true) ∧
    (conditionFlags (mainFlag e) (turnedFlag e) inverted &&& Flag.groupInverted ≠ 0 ↔
      e.id = Id.group ∧ inverted = true) := by
  decide

private theorem has_before {flag : UInt8} {id : Nat} (known : (flag, id) ∈ flagIds)
    (row : o.entry ∈ table) (step : Step groups m o next) (other : o.entry.id ≠ id)
    (set : next.has flag = true) : m.has flag = true := by
  have unset : setFlags o &&& flag = 0 := by
    by_contra met
    exact other ((row_sets o.entry row o.inverted (flag, id) known).mp met)
  simpa [has_step step, unset] using set

theorem accounted_step (accounted : Accounted groups options m) (row : o.entry ∈ table)
    (step : Step groups m o next) : Accounted groups (options ++ [o]) next where
  flags flag := by
    rw [has_step step, Bool.or_eq_true, accounted.flags flag, bne_iff_ne]
    simp [or_and_right, exists_or]
  length set := by
    have known : (Flag.prefixLength, Id.prefixLength) ∈ flagIds := by decide
    have before := has_before known row step
    cases step with
    | prefixLength id _ operand => exact ⟨o, by simp, by simp [limit?, id, operand, withFlags]⟩
    | loose id | validMark id | acceptLocal id | invert id | group id =>
      obtain ⟨p, member, states⟩ := accounted.length (before (by rw [id]; decide) set)
      exact ⟨p, List.mem_append_left _ member, states⟩
  group set := by
    have known : (Flag.group, Id.group) ∈ flagIds := by decide
    have before := has_before known row step
    cases step with
    | group id _ operand read =>
      exact ⟨o, by simp, by simp [limit?, id, operand, read, withFlags]⟩
    | loose id | validMark id | acceptLocal id | invert id | prefixLength id =>
      obtain ⟨p, member, states⟩ := accounted.group (before (by rw [id]; decide) set)
      exact ⟨p, List.mem_append_left _ member, states⟩

/-- The record of a rule whose options are rows of the table and have each a number of its own. -/
structure Told (groups : DeviceGroups) (options : List Occurrence) (m : ReversePath) : Prop where
  accounted : Accounted groups options m
  stored : m.Stored
  rows : ∀ o ∈ options, o.entry ∈ table
  once : ∀ o ∈ options, ∀ p ∈ options, o.entry.id = p.entry.id → o = p

theorem told_applyTokens {host : Context} {revision : UInt8} {words : List String}
    {ext : Extension} {final : Register}
    (accepted : (Extension.reversePath (create revision)).applyTokens host words =
      (ext, .ok final)) : ∃ m, ext = .reversePath m ∧ m.revision = revision ∧
        Told host.deviceGroups
          ((Extension.reversePath (create revision)).grammar.read words).occurrences m := by
  obtain ⟨m, rfl, same, stored⟩ := stored_applyTokens accepted
  have ran := Extension.applyTokens_induction (P := fun options _ current => ∃ k,
    current = .reversePath k ∧ Accounted host.deviceGroups options k) accepted
    ⟨create revision, rfl, accounted_create revision⟩ (by
      rintro _ _ _ next o ⟨k, rfl, accounted⟩ - admitted taken
      obtain ⟨made, applied, rfl⟩ := map_eq_ok_iff.mp (commit_ok taken)
      exact ⟨made, rfl, accounted_step accounted admitted.entry (step_of_apply applied)⟩)
  obtain ⟨k, same_record, accounted⟩ := ran
  cases same_record
  exact ⟨m, rfl, same, accounted, stored,
    fun o member => ((Extension.apart_of_accepted accepted).1 o member).entry,
    fun o first p second => Extension.eq_of_id accepted first second⟩

namespace Told

variable (told : Told groups options m)
include told

theorem has_iff_given {flag : UInt8} {id : Nat} (known : (flag, id) ∈ flagIds) :
    m.has flag = true ↔ Given options id := by
  rw [told.accounted.flags]
  exact exists_congr fun o => and_congr_right fun member =>
    row_sets o.entry (told.rows o member) o.inverted (flag, id) known

private theorem turned {flag : UInt8} {id : Nat} (member : o ∈ options) (own : o.entry.id = id)
    (turns : ∀ e ∈ table, ∀ inverted,
      conditionFlags (mainFlag e) (turnedFlag e) inverted &&& flag ≠ 0 ↔
        e.id = id ∧ inverted = true) : m.has flag = o.inverted := by
  rw [Bool.eq_iff_iff, told.accounted.flags]
  constructor
  · rintro ⟨p, known, met⟩
    obtain ⟨same, inverted⟩ := (turns p.entry (told.rows p known) p.inverted).mp met
    rwa [told.once o member p known (own.trans same.symm)]
  · intro inverted
    exact ⟨o, member, (turns o.entry (told.rows o member) o.inverted).mpr ⟨own, inverted⟩⟩

theorem exists_option {limit : Limit} (limits : m.Limits limit) :
    ∃ o ∈ options, limit? groups o = some limit := by
  cases limit with
  | length n inverted =>
    obtain ⟨given, rfl, rfl⟩ := limits
    obtain ⟨o, member, states⟩ := told.accounted.length given
    refine ⟨o, member, ?_⟩
    rwa [told.turned member (id_of_limit? states) fun e row inverted =>
      (row_turns e row inverted).1]
  | group word inverted =>
    obtain ⟨given, rfl, rfl⟩ := limits
    obtain ⟨o, member, states⟩ := told.accounted.group given
    refine ⟨o, member, ?_⟩
    rwa [told.turned member (id_of_limit? states) fun e row inverted =>
      (row_turns e row inverted).2]

theorem limits_iff {limit : Limit} :
    m.Limits limit ↔ ∃ o ∈ options, limit? groups o = some limit := by
  refine ⟨told.exists_option, ?_⟩
  rintro ⟨o, member, states⟩
  have id := id_of_limit? states
  -- The record has a limit of this kind, and no other option can have stated it.
  obtain ⟨stored, held, same⟩ : ∃ stored, m.Limits stored ∧ stored.id = limit.id := by
    have given : Given options limit.id := ⟨o, member, id⟩
    cases limit with
    | length n inverted =>
      have known : (Flag.prefixLength, Id.prefixLength) ∈ flagIds := by decide
      have set := (told.has_iff_given known).mpr given
      exact ⟨.length _ _, ⟨set, rfl, rfl⟩, rfl⟩
    | group word inverted =>
      have known : (Flag.group, Id.group) ∈ flagIds := by decide
      have set := (told.has_iff_given known).mpr given
      exact ⟨.group _ _, ⟨set, rfl, rfl⟩, rfl⟩
  obtain ⟨p, known, found⟩ := told.exists_option held
  have one := told.once o member p known (id.trans (same.symm.trans (id_of_limit? found).symm))
  rw [← one, states] at found
  cases found
  exact held

end Told

/-! Records with the same conditions. -/

private theorem condition_eq {α : Type} {main turned : UInt8} {value value' blank : α}
    (held : Condition m main turned value blank) (held' : Condition other main turned value' blank)
    (same : ∀ v inverted, (m.has main = true ∧ value = v ∧ m.has turned = inverted) ↔
      (other.has main = true ∧ value' = v ∧ other.has turned = inverted)) :
    m.has main = other.has main ∧ m.has turned = other.has turned ∧ value = value' := by
  cases given : m.has main with
  | true =>
    obtain ⟨given', value, turned⟩ := (same _ _).mp ⟨given, rfl, rfl⟩
    exact ⟨given'.symm, turned.symm, value.symm⟩
  | false =>
    have unset : other.has main = false := by
      by_contra set
      have back := (same _ _).mpr ⟨Bool.not_eq_false _ ▸ set, rfl, rfl⟩
      exact absurd (given.symm.trans back.1) (by decide)
    refine ⟨unset.symm, ?_, (held.unset given).trans (held'.unset unset).symm⟩
    rw [held.upright given, held'.upright unset]

theorem eq_of_conditions (stored : m.Stored) (stored' : other.Stored)
    (revision : m.revision = other.revision) (expressed : m.expressed = other.expressed)
    (limits : ∀ limit, m.Limits limit ↔ other.Limits limit) : m = other := by
  obtain ⟨length, lengthTurned, lengthValue⟩ :=
    condition_eq stored.length stored'.length fun n inverted => limits (.length n inverted)
  obtain ⟨group, groupTurned, groupValue⟩ :=
    condition_eq stored.group stored'.group fun word inverted => limits (.group word inverted)
  have flags : m.flags = other.flags := by
    refine byte_eq_of_bits fun k => ?_
    match k with
    | 0 => exact congrArg Expressed.loose expressed
    | 1 => exact congrArg Expressed.validMark expressed
    | 2 => exact congrArg Expressed.acceptLocal expressed
    | 3 => exact congrArg Expressed.invert expressed
    | 4 => exact length
    | 5 => exact lengthTurned
    | 6 => exact group
    | 7 => exact groupTurned
  cases m
  cases other
  simp_all

theorem pack_inj (stored : m.Stored) (stored' : other.Stored)
    (revision : m.revision = other.revision) : m.pack = other.pack ↔ m = other := by
  constructor
  · intro bytes
    have read := unpack_pack (fits_of_stored stored)
    rw [bytes, revision, unpack_pack (fits_of_stored stored')] at read
    exact (Except.ok.inj read).symm
  · rintro rfl
    rfl

/-- A rule has no statement where it accepts local addresses and inverts nothing. Rules of one
revision with the same statement have the same record exactly when they state the same limits, since
a statement has no words for these. -/
theorem record_eq_iff_of_statement {revision : Option UInt8} {words words' : List String}
    {numeric numeric' : Bool} {host : Context} {result result' : RuleView}
    (parsed : Rule.parse "rpfilter" revision words numeric host = .ok result)
    (parsed' : Rule.parse "rpfilter" revision words' numeric' host = .ok result') :
    let options := Rule.occurrences "rpfilter" revision words
    let options' := Rule.occurrences "rpfilter" revision words'
    (result.view.statement = none ↔ Given options Id.acceptLocal ∧ ¬ Given options Id.invert) ∧
      (result.view.statement ≠ none → result.view.statement = result'.view.statement →
        (result.view.record = result'.view.record ↔
          ∀ limit, (∃ o ∈ options, limit? host.deviceGroups o = some limit) ↔
            ∃ o ∈ options', limit? host.deviceGroups o = some limit)) := by
  obtain ⟨r, ext, final, found, accepted, rfl⟩ := Rule.parse_ok parsed
  obtain ⟨r', ext', final', found', accepted', rfl⟩ := Rule.parse_ok parsed'
  cases found.symm.trans found'
  have created : r.create = .reversePath (create r.revision) :=
    Registry.create_of_lookup registered found
  intro options options'
  rw [created] at accepted accepted'
  obtain ⟨m, rfl, revision_m, told⟩ := told_applyTokens accepted
  obtain ⟨other, rfl, revision_other, told'⟩ := told_applyTokens accepted'
  rw [← created, ← Rule.occurrences_of_lookup found] at told told'
  constructor
  · show m.statement? = none ↔ _
    have accepts : (Flag.acceptLocal, Id.acceptLocal) ∈ flagIds := by decide
    have turns : (Flag.invert, Id.invert) ∈ flagIds := by decide
    rw [statement?_eq_none_iff, ← Bool.not_eq_true, told.has_iff_given accepts,
      told.has_iff_given turns]
  · show m.statement? ≠ none → m.statement? = other.statement? → (m.pack = other.pack ↔ _)
    intro stated same
    have revision := revision_m.trans revision_other.symm
    have limits : (∀ limit, m.Limits limit ↔ other.Limits limit) ↔
        ∀ limit, (∃ o ∈ options, limit? host.deviceGroups o = some limit) ↔
          ∃ o ∈ options', limit? host.deviceGroups o = some limit :=
      forall_congr' fun limit => iff_congr told.limits_iff told'.limits_iff
    rw [pack_inj told.stored told'.stored revision, ← limits]
    constructor
    · rintro rfl
      exact fun limit => Iff.rfl
    · exact eq_of_conditions told.stored told'.stored revision (expressed_eq stated same)

theorem record_eq_iff_of_statement_loose : ∃ result result',
    Rule.parse "rpfilter" none ["--loose", "--prefixlen=5"] false .empty = .ok result ∧
      Rule.parse "rpfilter" none ["--prefixlen", "0x05", "--loose"] false .empty = .ok result' ∧
      result.view.statement = some "fib saddr oif != 0" ∧
      result'.view.statement = some "fib saddr oif != 0" ∧
      result.view.record = result'.view.record := by
  obtain ⟨result, parsed, statement⟩ : ∃ result,
      Rule.parse "rpfilter" none ["--loose", "--prefixlen=5"] false .empty = .ok result ∧
        result.view.statement = some "fib saddr oif != 0" :=
    ⟨_, by with_unfolding_all rfl, by decide⟩
  obtain ⟨result', parsed', statement'⟩ : ∃ result,
      Rule.parse "rpfilter" none ["--prefixlen", "0x05", "--loose"] false .empty = .ok result ∧
        result.view.statement = some "fib saddr oif != 0" :=
    ⟨_, by with_unfolding_all rfl, by decide⟩
  have stated : (Rule.occurrences "rpfilter" none ["--loose", "--prefixlen=5"]).filterMap
      (limit? .empty) = [.length 5 false] := by with_unfolding_all rfl
  have stated' : (Rule.occurrences "rpfilter" none ["--prefixlen", "0x05", "--loose"]).filterMap
      (limit? .empty) = [.length 5 false] := by with_unfolding_all rfl
  have same := (record_eq_iff_of_statement parsed parsed').2 (by simp [statement])
    (statement.trans statement'.symm)
  refine ⟨result, result', parsed, parsed', statement, statement', same.mpr fun limit => ?_⟩
  have groups : Context.empty.deviceGroups = .empty := rfl
  rw [groups, ← List.mem_filterMap, ← List.mem_filterMap, stated, stated']

/-- A limit on the length of the route is in the record, but not in the statement. -/
theorem statement_drops_length : ∃ result result',
    Rule.parse "rpfilter" (some 1) ["--prefixlen", "5"] false .empty = .ok result ∧
      Rule.parse "rpfilter" (some 1) [] false .empty = .ok result' ∧
      result.view.statement = some "fib saddr . iif oif != 0" ∧
      result'.view.statement = result.view.statement ∧
      result.view.record ≠ result'.view.record := by
  obtain ⟨result, parsed, statement, limited⟩ : ∃ result,
      Rule.parse "rpfilter" (some 1) ["--prefixlen", "5"] false .empty = .ok result ∧
        result.view.statement = some "fib saddr . iif oif != 0" ∧
        result.view.record.head? = some Flag.prefixLength :=
    ⟨_, by with_unfolding_all rfl, by decide, by decide⟩
  obtain ⟨result', parsed', statement', free⟩ : ∃ result,
      Rule.parse "rpfilter" (some 1) [] false .empty = .ok result ∧
        result.view.statement = some "fib saddr . iif oif != 0" ∧
        result.view.record.head? = some 0 := ⟨_, by with_unfolding_all rfl, by decide, by decide⟩
  refine ⟨result, result', parsed, parsed', statement, statement'.trans statement.symm, ?_⟩
  intro same
  rw [← same, limited] at free
  exact absurd free (by decide)

end FilterRecord.ReversePath
