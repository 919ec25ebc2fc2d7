/- Proofs/Match/ReversePathWords
   digest: The words that save an rpfilter record, row by row, and what they give a fresh rule. -/

import FilterRecord.Proofs.Arguments.Writing
import FilterRecord.Proofs.Match.ReversePath
import FilterRecord.Proofs.Names.DeviceGroups

set_option autoImplicit false
set_option relaxedAutoImplicit false

namespace FilterRecord.ReversePath

open Text
open Options (Apart Entry Occurrence Operand Register Shows shown)
open Extension (Leads)

variable {groups : DeviceGroups} {m b c next : ReversePath} {o : Occurrence} {seen : Register}

def conditionFlags (main turned : UInt8) (inverted : Bool) : UInt8 :=
  if inverted then main ||| turned else main

/-- A condition with a value: it is inverted only where it is stated, it is stated only where the
layout has room for the value, and the value is blank otherwise. -/
structure Condition {α : Type} (m : ReversePath) (main turned : UInt8) (value blank : α) :
    Prop where
  stated : m.has turned = true → m.has main = true
  room : m.has main = true → m.revision ≠ 0
  unset : m.has main = false → value = blank

namespace Condition

variable {α : Type} {main turned : UInt8} {value blank : α}

theorem upright (condition : Condition m main turned value blank) (absent : m.has main = false) :
    m.has turned = false := by
  by_contra set
  have stated := condition.stated (Bool.not_eq_false _ ▸ set)
  exact absurd (absent.symm.trans stated) (by decide)

theorem absent_of_first (condition : Condition m main turned value blank)
    (zero : m.revision = 0) : m.has main = false ∧ m.has turned = false ∧ value = blank := by
  have absent : m.has main = false := by
    by_contra set
    exact condition.room (Bool.not_eq_false _ ▸ set) zero
  exact ⟨absent, condition.upright absent, condition.unset absent⟩

end Condition

/-- What is true of the record of every accepted rule. -/
structure Stored (m : ReversePath) : Prop where
  small : m.prefixLength.toNat ≤ 128
  length : Condition m Flag.prefixLength Flag.prefixLengthInverted m.prefixLength 0
  group : Condition m Flag.group Flag.groupInverted m.group .zero

theorem stored_create (revision : UInt8) : (create revision).Stored where
  small := by simp [create]
  length := ⟨by simp [create, has], by simp [create, has], fun _ => rfl⟩
  group := ⟨by simp [create, has], by simp [create, has], fun _ => rfl⟩

theorem fits_of_stored (stored : m.Stored) : m.Fits where
  first zero :=
    ⟨(stored.length.absent_of_first zero).2.2, (stored.group.absent_of_first zero).2.2⟩

theorem has_withFlags (flags f : UInt8) :
    (m.withFlags flags).has f = (m.has f || (flags &&& f != 0)) := by
  rw [Bool.eq_iff_iff]
  simp only [has, withFlags, byte_or_and_distrib, bne_iff_ne, ne_eq, UInt8.or_eq_zero_iff,
    Bool.or_eq_true]
  exact not_and_or

private theorem condition_apart {α : Type} {main turned flags : UInt8} {value blank : α}
    (held : Condition m main turned value blank) (revision : b.revision = m.revision)
    (same : b.flags = m.flags) (apart : flags &&& main = 0 ∧ flags &&& turned = 0) :
    Condition (b.withFlags flags) main turned value blank := by
  have stays (f : UInt8) (outside : flags &&& f = 0) : (b.withFlags flags).has f = m.has f := by
    rw [has_withFlags, outside, has, has, same]
    simp
  have kept : (b.withFlags flags).revision = m.revision := revision
  constructor
  · rw [stays main apart.1, stays turned apart.2]
    exact held.stated
  · rw [stays main apart.1, kept]
    exact held.room
  · rw [stays main apart.1]
    exact held.unset

private theorem condition_stated {α : Type} {main turned flags : UInt8} {value blank : α}
    (own : flags &&& main ≠ 0) (later : b.revision ≠ 0) :
    Condition (b.withFlags flags) main turned value blank := by
  have given : (b.withFlags flags).has main = true := by
    rw [has_withFlags, bne_iff_ne.mpr own, Bool.or_true]
  exact ⟨fun _ => given, fun _ => later, fun unset => absurd (given.symm.trans unset) (by decide)⟩

theorem stored_step (stored : m.Stored) (step : Step groups m o next)
    (small : ∀ n, o.operand = .prefixLength n → n.toNat ≤ 128) : next.Stored := by
  have length_own : ∀ inverted : Bool,
      conditionFlags Flag.prefixLength Flag.prefixLengthInverted inverted &&&
        Flag.prefixLength ≠ 0 := by decide
  have length_apart : ∀ inverted : Bool,
      conditionFlags Flag.prefixLength Flag.prefixLengthInverted inverted &&& Flag.group = 0 ∧
        conditionFlags Flag.prefixLength Flag.prefixLengthInverted inverted &&&
          Flag.groupInverted = 0 := by decide
  have group_own : ∀ inverted : Bool,
      conditionFlags Flag.group Flag.groupInverted inverted &&& Flag.group ≠ 0 := by decide
  have group_apart : ∀ inverted : Bool,
      conditionFlags Flag.group Flag.groupInverted inverted &&& Flag.prefixLength = 0 ∧
        conditionFlags Flag.group Flag.groupInverted inverted &&&
          Flag.prefixLengthInverted = 0 := by decide
  cases step with
  | loose | validMark | acceptLocal | invert =>
    exact ⟨stored.small, condition_apart stored.length rfl rfl (by decide),
      condition_apart stored.group rfl rfl (by decide)⟩
  | prefixLength _ later operand =>
    exact ⟨small _ operand, condition_stated (length_own o.inverted) later,
      condition_apart stored.group rfl rfl (length_apart o.inverted)⟩
  | group _ later =>
    exact ⟨stored.small, condition_apart stored.length rfl rfl (group_apart o.inverted),
      condition_stated (group_own o.inverted) later⟩

/-! Each row of the table with its flags and the value that it states. -/

def mainFlag (e : Entry) : UInt8 :=
  match e.id with
  | Id.loose => Flag.loose
  | Id.validMark => Flag.validMark
  | Id.acceptLocal => Flag.acceptLocal
  | Id.invert => Flag.invert
  | Id.prefixLength => Flag.prefixLength
  | _ => Flag.group

/-- The flag that an inverted option sets too; most options cannot be inverted. -/
def turnedFlag (e : Entry) : UInt8 :=
  match e.id with
  | Id.prefixLength => Flag.prefixLengthInverted
  | Id.group => Flag.groupInverted
  | _ => 0

def stated (groups : DeviceGroups) (m : ReversePath) (e : Entry) : Option String :=
  match e.id with
  | Id.prefixLength => some (Numeral.decimal m.prefixLength.toNat)
  | Id.group => some (groups.display m.group)
  | _ => none

def withValue (m : ReversePath) (e : Entry) (b : ReversePath) : ReversePath :=
  match e.id with
  | Id.prefixLength => { b with prefixLength := m.prefixLength }
  | Id.group => { b with group := m.group }
  | _ => b

/-- The saved text shows an option that the record has and the revision takes. -/
def gives (m : ReversePath) (e : Entry) : Bool :=
  (1 ≤ m.revision || !needsRevisionOne e.id) && m.has (mainFlag e)

def rowWords (groups : DeviceGroups) (m : ReversePath) (e : Entry) : List String :=
  shown (m.gives e) (m.has (turnedFlag e)) (("--" ++ e.name) :: (m.stated groups e).toList)

def restate (m : ReversePath) (e : Entry) (b : ReversePath) : ReversePath :=
  if m.has (mainFlag e) then
    (m.withValue e b).withFlags
      (conditionFlags (mainFlag e) (turnedFlag e) (m.has (turnedFlag e)))
  else b

variable {e : Entry}

private theorem row_flags : ∀ e ∈ table, ∀ flag ∈ [mainFlag e, turnedFlag e],
    flag = 0 ∨ ∃ k : Fin 8, flag.toBitVec = BitVec.twoPow 8 k.val := by
  simp only [List.forall_mem_cons, List.not_mem_nil, false_implies, implies_true, and_true]
  decide

private theorem row_turned : ∀ e ∈ table, turnedFlag e = 0 ∨ e.invertible = true ∧
    (e.id = Id.prefixLength ∨ e.id = Id.group) := by
  decide

private theorem rows_apart : table.Pairwise Apart := by
  decide

private theorem stated_of_turned (stored : m.Stored) (row : e ∈ table)
    (turned : m.has (turnedFlag e) = true) :
    e.invertible = true ∧ m.has (mainFlag e) = true := by
  rcases row_turned e row with none | ⟨invertible, id | id⟩
  · rw [none] at turned
    simp [has] at turned
  · rw [turnedFlag, id] at turned
    rw [mainFlag, id]
    exact ⟨invertible, stored.length.stated turned⟩
  · rw [turnedFlag, id] at turned
    rw [mainFlag, id]
    exact ⟨invertible, stored.group.stated turned⟩

theorem savedWords_rows (groups : DeviceGroups) (m : ReversePath) :
    m.savedWords groups = table.flatMap (m.rowWords groups) := by
  have upright : m.has 0 = false := by simp [has]
  have early : ∀ id ∈ [Id.loose, Id.validMark, Id.acceptLocal, Id.invert],
      needsRevisionOne id = false := by decide
  have late : ∀ id ∈ [Id.prefixLength, Id.group], needsRevisionOne id = true := by decide
  simp only [List.forall_mem_cons] at early late
  simp only [savedWords, ruleWords, table, List.flatMap_cons, List.flatMap_nil, List.append_nil,
    List.append_assoc, rowWords, gives, mainFlag, turnedFlag, stated, upright, Option.toList_none,
    Option.toList_some, early, late, Bool.not_false, Bool.not_true, Bool.or_true, Bool.or_false,
    Bool.true_and]

private theorem gives_stored (stored : m.Stored) (row : e ∈ table) :
    m.gives e = m.has (mainFlag e) := by
  have needs : ∀ e ∈ table, needsRevisionOne e.id = true →
      mainFlag e = Flag.prefixLength ∨ mainFlag e = Flag.group := by decide
  rw [gives]
  cases given : m.has (mainFlag e) with
  | false => simp
  | true =>
    cases extended : needsRevisionOne e.id with
    | false => simp
    | true =>
      have room : m.revision ≠ 0 := by
        rcases needs e row extended with flag | flag <;> rw [flag] at given
        · exact stored.length.room given
        · exact stored.group.room given
      simpa using one_le_of_ne_zero room

private theorem apply_row (sane : groups.Sane) (stored : m.Stored) (row : e ∈ table)
    (given : m.has (mainFlag e) = true) (same : b.revision = m.revision) :
    ∃ operand, Shows e.kind (m.stated groups e) operand ∧ ∀ o : Occurrence, o.entry = e →
      o.operand = operand → o.inverted = m.has (turnedFlag e) →
        b.apply groups o = .ok (m.restate e b) := by
  have next : m.restate e b = (m.withValue e b).withFlags
      (conditionFlags (mainFlag e) (turnedFlag e) (m.has (turnedFlag e))) := if_pos given
  have upright : m.has 0 = false := by simp [has]
  have early : ∀ id ∈ [Id.loose, Id.validMark, Id.acceptLocal, Id.invert],
      needsRevisionOne id = false := by decide
  simp only [List.forall_mem_cons] at early
  have later (held : m.has (mainFlag e) = true → m.revision ≠ 0) : ¬ b.revision < 1 := by
    rw [same]
    exact UInt8.not_lt.mpr (one_le_of_ne_zero (held given))
  rw [next]
  simp only [table, List.mem_cons, List.not_mem_nil, or_false] at row
  rcases row with rfl | rfl | rfl | rfl | rfl | rfl
  · exact ⟨.absent, .flag, fun o entry _ _ => by
      simp [apply, entry, early, withValue, conditionFlags, mainFlag, turnedFlag, upright]⟩
  · exact ⟨.absent, .flag, fun o entry _ _ => by
      simp [apply, entry, early, withValue, conditionFlags, mainFlag, turnedFlag, upright]⟩
  · exact ⟨.absent, .flag, fun o entry _ _ => by
      simp [apply, entry, early, withValue, conditionFlags, mainFlag, turnedFlag, upright]⟩
  · exact ⟨.absent, .flag, fun o entry _ _ => by
      simp [apply, entry, early, withValue, conditionFlags, mainFlag, turnedFlag, upright]⟩
  · have supported := later stored.length.room
    refine ⟨_, .prefixLength stored.small, fun o entry operand turned => ?_⟩
    rw [← turned]
    simp [apply, entry, operand, supported, withValue, conditionFlags, mainFlag, turnedFlag]
  · have supported := later stored.group.room
    have read := DeviceGroups.readMasked?_display sane m.group
    refine ⟨_, .text _, fun o entry operand turned => ?_⟩
    rw [← turned]
    simp [apply, entry, operand, supported, read, withValue, conditionFlags, mainFlag, turnedFlag]

variable {host : Context}

private theorem leads_row (sane : host.deviceGroups.Sane) (stored : m.Stored) (row : e ∈ table)
    (same : b.revision = m.revision) (free : seen.Misses (e.bit ||| e.excluded)) :
    Leads host (Extension.reversePath (create m.revision)).grammar
      (m.rowWords host.deviceGroups e) seen (.reversePath b) (seen.after (m.has (mainFlag e)) e)
      (.reversePath (m.restate e b)) := by
  have gives := gives_stored stored row
  cases given : m.has (mainFlag e) with
  | false =>
    have hidden : m.rowWords host.deviceGroups e = [] := by simp [rowWords, gives, given, shown]
    simpa [hidden, Register.after, restate, given] using Extension.leads_nil
  | true =>
    obtain ⟨operand, argument, applied⟩ := apply_row sane stored row given same
    have words : m.rowWords host.deviceGroups e =
        (if m.has (turnedFlag e) then ["!"] else []) ++
          ("--" ++ e.name) :: (m.stated host.deviceGroups e).toList := by
      rw [rowWords, gives, given]
      rfl
    rw [words]
    refine Extension.leads_written (Extension.legible_grammar _) row free
      (fun turned => (stated_of_turned stored row turned).1) argument ?_
    rw [Extension.apply, applied _ rfl rfl rfl]
    rfl

private theorem restate_revision : (m.restate e b).revision = b.revision := by
  unfold restate withValue
  split
  · split <;> rfl
  · rfl

private theorem and_of_has {flag : UInt8}
    (one : flag = 0 ∨ ∃ k : Fin 8, flag.toBitVec = BitVec.twoPow 8 k.val) :
    m.flags &&& flag = if m.has flag then flag else 0 := by
  rcases one with rfl | ⟨k, bit⟩
  · simp
  · rcases byte_and_one_bit (a := m.flags) bit with outside | inside
    · simp [has, outside]
    · by_cases none : flag = 0
      · simp [none]
      · simp [has, inside, none]

private theorem restate_flags (stored : m.Stored) (row : e ∈ table) :
    (m.restate e b).flags = b.flags ||| (m.flags &&& (mainFlag e ||| turnedFlag e)) := by
  have value : (m.withValue e b).flags = b.flags := by
    unfold withValue
    split <;> rfl
  rw [byte_and_or_distrib, and_of_has (row_flags e row _ (by simp)),
    and_of_has (row_flags e row (turnedFlag e) (by simp)), restate]
  cases given : m.has (mainFlag e) with
  | true => cases m.has (turnedFlag e) <;> simp [withFlags, value, conditionFlags]
  | false =>
    have upright : m.has (turnedFlag e) = false := by
      by_contra turned
      rw [Bool.not_eq_false] at turned
      exact absurd ((stated_of_turned stored row turned).2.symm.trans given) (by decide)
    simp [upright]

private def flagsOf (rows : List Entry) : UInt8 :=
  rows.foldr (fun e rest => (mainFlag e ||| turnedFlag e) ||| rest) 0

private theorem foldl_flags (stored : m.Stored) {rows : List Entry} (within : rows ⊆ table) :
    (rows.foldl (fun b e => m.restate e b) b).flags = b.flags ||| (m.flags &&& flagsOf rows) := by
  induction rows generalizing b with
  | nil => simp [flagsOf]
  | cons e rest ih =>
    have bits : flagsOf (e :: rest) = (mainFlag e ||| turnedFlag e) ||| flagsOf rest := rfl
    rw [List.foldl_cons, ih (List.subset_of_cons_subset within),
      restate_flags stored (within (by simp)), bits, UInt8.or_assoc, ← byte_and_or_distrib]

private theorem foldl_values (m : ReversePath) :
    (table.foldl (fun b e => m.restate e b) (create m.revision)).prefixLength =
        (if m.has Flag.prefixLength then m.prefixLength else 0) ∧
      (table.foldl (fun b e => m.restate e b) (create m.revision)).group =
        (if m.has Flag.group then m.group else .zero) := by
  simp only [table, List.foldl_cons, List.foldl_nil, restate, withValue, mainFlag,
    apply_ite ReversePath.prefixLength, apply_ite ReversePath.group, withFlags, create, ite_self,
    and_self]

private theorem ite_blank {α : Type} {given : Bool} {value blank : α}
    (unset : given = false → value = blank) : (if given then value else blank) = value := by
  cases given with
  | false => simp [unset]
  | true => rfl

private theorem eq_of_fields (revision : b.revision = c.revision) (flags : b.flags = c.flags)
    (length : b.prefixLength = c.prefixLength) (group : b.group = c.group) : b = c := by
  cases b
  cases c
  simp_all

private theorem foldl_eq (stored : m.Stored) :
    table.foldl (fun b e => m.restate e b) (create m.revision) = m := by
  have every : flagsOf table = 255 := by decide
  have flags := foldl_flags (b := create m.revision) stored (List.Subset.refl _)
  obtain ⟨length, group⟩ := m.foldl_values
  have revision : ∀ rows : List Entry, ∀ b : ReversePath,
      (rows.foldl (fun b e => m.restate e b) b).revision = b.revision := by
    intro rows
    induction rows with
    | nil => simp
    | cons e rest ih => simp [ih, restate_revision]
  have whole : m.flags &&& 255 = m.flags := UInt8.and_neg_one
  rw [every, whole] at flags
  rw [ite_blank stored.length.unset] at length
  rw [ite_blank stored.group.unset] at group
  exact eq_of_fields (revision table _) (flags.trans UInt8.zero_or) length group

theorem solid_savedWords (sane : groups.Sane) (m : ReversePath) :
    ∀ w ∈ m.savedWords groups, Solid w := by
  have names : ∀ e ∈ table, Solid ("--" ++ e.name) := by decide
  rw [savedWords_rows]
  intro w hw
  obtain ⟨e, row, hw⟩ := List.mem_flatMap.mp hw
  refine solid_shown (fun _ v hv => ?_) w hw
  rcases List.mem_cons.mp hv with rfl | hv
  · exact names e row
  · unfold stated at hv
    split at hv
    · rw [List.mem_singleton.mp hv]
      exact solid_decimal _
    · rw [List.mem_singleton.mp hv]
      exact DeviceGroups.solid_display sane m.group
    · exact absurd hv (by simp)

theorem restored {m : ReversePath} (sane : host.deviceGroups.Sane) (stored : m.Stored) :
    ∃ final, (Extension.reversePath (create m.revision)).applyTokens host
      (tokens ((Extension.reversePath m).saved host)) = (.reversePath m, .ok final) := by
  have led := Extension.leads_rows .reversePath (fun b => b.revision = m.revision) m.restate
    (fun e row seen b same free => leads_row sane stored row same free)
    (fun e _ b same => restate_revision.trans same) rows_apart
    (fun e _ => Register.empty_misses _) (create m.revision) rfl
  rw [foldl_eq stored, ← savedWords_rows] at led
  have cut : tokens ((Extension.reversePath m).saved host) = m.savedWords host.deviceGroups :=
    tokens_render (solid_savedWords sane m)
  rw [cut]
  exact ⟨_, Extension.applyTokens_of_leads led rfl⟩

end FilterRecord.ReversePath
