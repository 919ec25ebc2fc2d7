/- Proofs/Target/Newer
   digest: What a target's revision stores, a newer one stores with the same meaning. -/

import FilterRecord.Proofs.Arguments.Newer
import FilterRecord.Proofs.Decoding
import FilterRecord.Proofs.Target.ConnTrackWords
import FilterRecord.Proofs.Target.Operations

set_option autoImplicit false
set_option relaxedAutoImplicit false

namespace FilterRecord

open Text FilterRecord.Field
open Options (Occurrence Register)

theorem Options.Register.ne_nil_of_intersects {seen : Register} {taken : List Occurrence}
    (bits : seen.bits = Options.bits (taken.map (·.entry.id))) {mask : UInt32}
    (found : seen.intersects mask = true) : taken ≠ [] := by
  rintro rfl
  simp [Register.intersects, bits, Options.bits] at found

/-- A target that stores the operation of its rule: what states an operation at one revision states
it at a newer one, which has room for it. -/
structure OperationTarget {α : Type} (revision : α → UInt8)
    (states : α → Occurrence → Operation → Prop) (store : α → Operation → Option α)
    (apply : α → Occurrence → Except RuleError α) : Prop where
  apply_iff : ∀ {a next : α} {o : Occurrence},
    apply a o = .ok next ↔ ∃ op, states a o op ∧ store a op = some next
  states_newer : ∀ {a b : α} {o : Occurrence} {op : Operation} (r : UInt8),
    revision a ≤ revision b → states a o op → states b (o.forRevision r) op
  store_newer : ∀ {a b next : α} {op : Operation},
    revision a ≤ revision b → store a op = some next → ∃ made, store b op = some made
  revision_store : ∀ {a next : α} {op : Operation},
    store a op = some next → revision next = revision a

namespace OperationTarget

variable {α : Type} {revision : α → UInt8} {states : α → Occurrence → Operation → Prop}
  {store : α → Operation → Option α} {apply : α → Occurrence → Except RuleError α}

/-- The records that a rule gives at two revisions, after some of its options: once one of them has
stated an operation, both have stored it. -/
structure Related (revision : α → UInt8) (store : α → Operation → Option α)
    (taken : List Occurrence) (a b : α) : Prop where
  newer : revision a ≤ revision b
  stored : taken ≠ [] → ∃ op before blank, store before op = some a ∧ store blank op = some b

theorem simulates (target : OperationTarget revision states store apply) (g : Grammar) (r : UInt8) :
    Simulates (fun a o next => apply a o = .ok next) g r (Related revision store) := by
  intro taken a b next o related _ ok
  obtain ⟨op, stated, stored⟩ := target.apply_iff.mp ok
  obtain ⟨made, stored'⟩ := target.store_newer related.newer stored
  have stated' := target.states_newer r related.newer stated
  refine ⟨made, target.apply_iff.mpr ⟨op, stated', stored'⟩, ?_,
    fun _ => ⟨op, a, b, stored, stored'⟩⟩
  rw [target.revision_store stored, target.revision_store stored']
  exact related.newer

end OperationTarget

namespace Mark

variable {m n next : Mark} {op : Operation}

private theorem store_newer (newer : m.revision ≤ n.revision) (stored : m.store op = some next) :
    ∃ made, n.store op = some made := by
  cases n <;> cases m <;> simp only [revision] at newer <;>
    first | exact absurd newer (by decide) | cases op <;> simp [store] at stored ⊢

private theorem operationTarget : OperationTarget revision
    (fun _ o op => operation? o.entry.id o.operand = some op) store apply where
  apply_iff := by
    intro m next o
    constructor
    · intro ok
      cases stated : operation? o.entry.id o.operand with
      | none => simp [apply, stated] at ok
      | some op =>
        rw [apply_eq_store stated] at ok
        split at ok
        · rename_i stored
          cases ok
          exact ⟨op, rfl, stored⟩
        · cases ok
    · rintro ⟨op, stated, stored⟩
      rw [apply_eq_store stated, stored]
  states_newer _ _ stated := stated
  store_newer := store_newer
  revision_store := revision_store

private theorem intersects_of_finalCheck {seen : Register}
    (checked : m.finalCheck seen = .ok ()) : seen.intersects operationBits = true := by
  unfold finalCheck at checked
  split at checked
  · assumption
  · cases checked

private theorem acts (host : Context) :
    Extension.Acts host .mark fun m o next => m.apply o = .ok next where
  apply_iff := commit_eq_ok_iff.trans map_eq_ok_iff
  complete _ checked := if_pos (intersects_of_finalCheck checked)

/-- A rule of an older revision is accepted by a newer one, and gives a record of the same
effect. -/
theorem applyTokens_newer {host : Context} {tokens : List String} {older newer : UInt8}
    {last : Extension} {seen : Register}
    (le : (create older).revision ≤ (create newer).revision)
    (accepted : (Extension.mark (create older)).applyTokens host tokens = (last, .ok seen)) :
    ∃ m n, .mark m = last ∧
      (Extension.mark (create newer)).applyTokens host tokens = (.mark n, .ok seen) ∧
      ∃ op : Operation, ∀ old, m.effect? old = some (op.effect old).toUInt64 ∧
        n.effect? old = some (op.effect old).toUInt64 := by
  have extended : (Extension.mark (create newer)).grammar.Extends
      (Extension.mark (create older)).grammar := ⟨rfl, List.Subset.refl _⟩
  obtain ⟨m, n, taken, rfl, accepted', related, bits⟩ := Extension.applyTokens_simulates
    (acts host) extended (operationTarget.simulates _ _)
    ⟨le, fun some_taken => absurd rfl some_taken⟩ accepted
  have checked : m.finalCheck seen = .ok () := (Extension.applyTokens_ok_iff.mp accepted).2.2
  obtain ⟨op, before, blank, stored, stored'⟩ := related.stored
    (Register.ne_nil_of_intersects bits (intersects_of_finalCheck checked))
  exact ⟨m, n, rfl, accepted', op, fun old =>
    ⟨effect_store stored old, effect_store stored' old⟩⟩

end Mark

namespace Classify

variable {c d next made : Classify} {o : Occurrence} {op : Operation} {revision : UInt8}

private theorem readClass_newer (newer : c.revision ≤ d.revision)
    (read : c.readClass o = .ok op) : d.readClass (o.forRevision revision) = .ok op := by
  have raw : (o.forRevision revision).rawArgument = o.rawArgument := rfl
  unfold readClass at read ⊢
  rw [raw]
  dsimp only at read ⊢
  split at read
  · exact read
  · split at read
    · cases read
    · rename_i later
      have later' : ¬ d.revision < 1 :=
        UInt8.not_lt.mpr (UInt8.le_trans (UInt8.not_lt.mp later) newer)
      rw [if_neg later']
      split at read
      · exact read
      · cases read

private theorem operation_newer (newer : c.revision ≤ d.revision)
    (stated : c.operation o = .ok op) : d.operation (o.forRevision revision) = .ok op := by
  have same : (o.forRevision revision).entry = o.entry ∧
      (o.forRevision revision).operand = o.operand := ⟨rfl, rfl⟩
  unfold operation at stated ⊢
  rw [same.1, same.2]
  split at stated
  · exact readClass_newer newer stated
  · exact stated
  · exact stated
  · exact stated
  · exact stated
  · cases stated

private theorem store_newer (newer : c.revision ≤ d.revision) (stored : c.store op = some next) :
    ∃ made, d.store op = some made := by
  cases d <;> cases c <;> simp only [Classify.revision] at newer <;>
    first | exact absurd newer (by decide) | cases op <;> simp [store] at stored ⊢

private theorem savedWords_store (stored : c.store op = some next)
    (stored' : d.store op = some made) : next.savedWords = made.savedWords := by
  cases c <;> cases d <;> cases op <;> simp [store] at stored stored' <;>
    subst stored stored' <;> simp [savedWords, ruleWords, Operation.encode]

private theorem operationTarget :
    OperationTarget Classify.revision (fun c o op => c.operation o = .ok op) store apply where
  apply_iff := by
    intro c next o
    constructor
    · intro ok
      cases stated : c.operation o with
      | error e => simp [apply, stated] at ok
      | ok op =>
        rw [apply_eq_store stated] at ok
        split at ok
        · rename_i stored
          cases ok
          exact ⟨op, rfl, stored⟩
        · cases ok
    · rintro ⟨op, stated, stored⟩
      rw [apply_eq_store stated, stored]
  states_newer _ newer stated := operation_newer newer stated
  store_newer := store_newer
  revision_store := revision_store

private theorem intersects_of_finalCheck {seen : Register}
    (checked : finalCheck seen = .ok ()) : seen.intersects operationBits = true := by
  unfold finalCheck at checked
  split at checked
  · assumption
  · cases checked

private theorem acts (host : Context) :
    Extension.Acts host .classify fun c o next => c.apply o = .ok next where
  apply_iff := commit_eq_ok_iff.trans map_eq_ok_iff
  complete _ checked := checked

theorem applyTokens_newer {host : Context} {tokens : List String} {older newer : UInt8}
    {last : Extension} {seen : Register}
    (le : (create older).revision ≤ (create newer).revision)
    (accepted : (Extension.classify (create older)).applyTokens host tokens = (last, .ok seen)) :
    ∃ made, (Extension.classify (create newer)).applyTokens host tokens = (made, .ok seen) ∧
      made.saved host = last.saved host := by
  have extended : (Extension.classify (create newer)).grammar.Extends
      (Extension.classify (create older)).grammar := ⟨rfl, List.Subset.refl _⟩
  obtain ⟨c, d, taken, rfl, accepted', related, bits⟩ := Extension.applyTokens_simulates
    (acts host) extended (operationTarget.simulates _ _)
    ⟨le, fun some_taken => absurd rfl some_taken⟩ accepted
  have checked : finalCheck seen = .ok () := (Extension.applyTokens_ok_iff.mp accepted).2.2
  obtain ⟨op, before, blank, stored, stored'⟩ := related.stored
    (Register.ne_nil_of_intersects bits (intersects_of_finalCheck checked))
  exact ⟨.classify d, accepted', congrArg render (savedWords_store stored' stored)⟩

end Classify

namespace ConnTrack

variable {t next : ConnTrack} {o : Occurrence} {revision : UInt8}

theorem apply_of_step (step : Step t o next) : t.apply o = (next, .ok ()) := by
  cases step with
  | notrack id => simp [apply, id, needsRevisionOne]
  | zoneMark known room mark => simp [apply_zone known room, applyZone, mark]
  | zoneNumber known room other whole range =>
    simp [apply_zone known room, applyZone, other,
      Numeral.bounded?_of_whole? whole (Nat.zero_le _) range]
  | events id operand read => exact apply_events id operand read
  | expectations id operand read => exact apply_expectations id operand read
  | helper id operand short => exact apply_helper id operand short
  | timeout id later operand short => exact apply_timeout id operand short later

private theorem step_later (later : revision ≠ 0) (step : Step t o next) :
    Step { t with revision := revision } (o.forRevision revision)
      { next with revision := revision } := by
  cases step with
  | notrack id => exact .notrack id
  | zoneMark known _ mark => exact .zoneMark known (fun _ => later) mark
  | zoneNumber known _ other whole range =>
    exact .zoneNumber known (fun _ => later) other whole range
  | events id operand read => exact .events id operand read
  | expectations id operand read => exact .expectations id operand read
  | helper id operand short => exact .helper id operand short
  | timeout id _ operand short => exact .timeout id later operand short

private theorem first_step (step : Step t o next) (first : t.revision = 0 → t.timeout = "") :
    next.revision = 0 → next.timeout = "" := by
  cases step with
  | notrack | zoneMark | zoneNumber | events | expectations | helper => exact first
  | timeout _ later => exact fun zero => absurd zero later

private theorem savedWords_later (later : revision ≠ 0) (first : t.revision = 0 → t.timeout = "") :
    savedWords { t with revision := revision } = t.savedWords := by
  have room := one_le_of_ne_zero later
  have same : (1 ≤ revision && t.timeout != "") = (1 ≤ t.revision && t.timeout != "") := by
    by_cases zero : t.revision = 0
    · simp [first zero]
    · simp [room, one_le_of_ne_zero zero]
  simp only [savedWords, ruleWords, same]
  rfl

private theorem acts (host : Context) : Extension.Acts host .connTrack Step where
  apply_iff := by
    intro t o next
    constructor
    · intro applied
      obtain ⟨made, ok, rfl⟩ := Extension.map_connTrack_ok applied
      exact ⟨made, step_of_apply ok, rfl⟩
    · rintro ⟨made, step, rfl⟩
      exact apply_extension (apply_of_step step)
  complete _ _ := rfl

theorem applyTokens_newer {host : Context} {tokens : List String} {older newer : UInt8}
    {last : Extension} {seen : Register} (later : newer ≠ 0)
    (accepted : (Extension.connTrack (create older)).applyTokens host tokens = (last, .ok seen)) :
    ∃ made, (Extension.connTrack (create newer)).applyTokens host tokens = (made, .ok seen) ∧
      made.saved host = last.saved host := by
  have extended : (Extension.connTrack (create newer)).grammar.Extends
      (Extension.connTrack (create older)).grammar := ⟨rfl, List.Subset.refl _⟩
  obtain ⟨t, _, -, rfl, accepted', ⟨rfl, first⟩, -⟩ := Extension.applyTokens_simulates (acts host)
    extended (R := fun _ t u => u = { t with revision := newer } ∧
      (t.revision = 0 → t.timeout = ""))
    (by
      rintro taken t _ next o ⟨rfl, first⟩ - step
      exact ⟨_, step_later later step, rfl, first_step step first⟩)
    ⟨rfl, fun _ => rfl⟩ accepted
  exact ⟨_, accepted', congrArg render (savedWords_later later first)⟩

end ConnTrack

end FilterRecord
