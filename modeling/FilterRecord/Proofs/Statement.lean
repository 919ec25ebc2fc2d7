/- Proofs/Statement
   digest: Which records have an nftables statement, and which of the statements are complete. -/

import FilterRecord.Rule
import FilterRecord.Proofs.Match.ReversePathStatement
import FilterRecord.Proofs.Registry
import FilterRecord.Proofs.Target.ClassHandle
import FilterRecord.Proofs.Target.MarkStatement

set_option autoImplicit false
set_option relaxedAutoImplicit false

namespace FilterRecord.Statement

open FilterRecord.Field (Bytes get8 get32)
open Classify (readHandle?)

/-- The complete statements that a record of a family may have. -/
inductive Complete (record : Bytes) : Extension.Family → String → Prop
  /-- The mark is set to an expression. -/
  | mark (e : Mark.Expression) : Complete record .mark e.statement
  /-- The class has a word of its own. -/
  | root (stored : get32 0 record = .ok 0xffffffff) :
    Complete record .classify "meta priority set root"
  | none (stored : get32 0 record = .ok 0) : Complete record .classify "meta priority set none"
  /-- The class is set to a handle that reads as the class in the record. -/
  | handle {priority : UInt32} {handle : String} (stored : get32 0 record = .ok priority)
    (reads : readHandle? handle = some priority) :
    Complete record .classify ("meta priority set " ++ handle)
  /-- The route back to the source leads to a device, or to none. -/
  | route (c : ReversePath.Expressed) : Complete record .reversePath c.text

/-- No statement expresses a record. A mark has none in its first layout, a class has none where bits
of the old class are kept, and a route has none where local addresses pass and nothing is inverted.
The other extensions have none at all. -/
def Unstated (r : Registration) (record : Bytes) : Prop :=
  match r.family with
  | .mark => r.revision = 0
  | .classify =>
    r.revision ≠ 0 ∧ ∃ mask, get32 4 record = .ok mask ∧ mask ≠ MaskedWord.fullMask
  | .reversePath => ∃ flags, get8 0 record = .ok flags ∧
      flags &&& ReversePath.Flag.acceptLocal ≠ 0 ∧ flags &&& ReversePath.Flag.invert = 0
  | .ipMark | .connTrack | .noTrack | .socket => True

def Modeless (r : Registration) (record : Bytes) : Prop :=
  r.family = .mark ∧ r.revision = 1 ∧ ∃ mode, get8 8 record = .ok mode ∧ mode ∉ [0, 1, 2]

/-- What is to be known of the statement of a record, or of its lack. -/
structure Judged (r : Registration) (record : Bytes) (statement : Option String) : Prop where
  none_iff : statement = none ↔ Unstated r record
  complete_iff {text : String} (told : statement = some text) :
    Complete record r.family text ↔ ¬ Modeless r record
  bare (modeless : Modeless r record) : statement = some "meta mark set"

variable {r : Registration} {record : Bytes} {revision : UInt8}

theorem not_modeless (other : r.family ≠ .mark) : ¬ Modeless r record :=
  fun modeless => other modeless.1

theorem judged_none (unstated : Unstated r record) (known : ¬ Modeless r record) :
    Judged r record none where
  none_iff := iff_of_true rfl unstated
  complete_iff := nofun
  bare modeless := absurd modeless known

theorem judged_complete {text : String} (stated : ¬ Unstated r record)
    (known : ¬ Modeless r record) (complete : Complete record r.family text) :
    Judged r record (some text) where
  none_iff := iff_of_false nofun stated
  complete_iff told := iff_of_true (Option.some.inj told ▸ complete) known
  bare modeless := absurd modeless known

/-! ## Marks -/

theorem not_complete_bare (record : Bytes) : ¬ Complete record .mark "meta mark set" := by
  generalize bare : "meta mark set" = text
  rintro ⟨e⟩
  have short := congrArg String.length bare
  rw [Mark.Expression.statement, String.length_append] at short
  have head : "meta mark set".length < "meta mark set ".length := by decide
  omega

theorem unpack_mark_cases {m : Mark} (ok : Mark.unpack revision record = .ok m) :
    (revision = 0 ∧ ∃ mark, m = .plain mark) ∨
    (revision = 1 ∧ ∃ mark mode, get8 8 record = .ok mode ∧ m = .moded mark mode) ∨
    (revision ≠ 0 ∧ revision ≠ 1 ∧ ∃ word, m = .masked word) := by
  obtain ⟨_, -, read⟩ := bind_eq_ok_iff.mp ok
  by_cases first : revision = 0
  · subst first
    obtain ⟨mark, _, made⟩ := bind_eq_ok_iff.mp read
    cases made
    exact .inl ⟨rfl, mark, rfl⟩
  by_cases second : revision = 1
  · subst second
    obtain ⟨mark, _, read⟩ := bind_eq_ok_iff.mp read
    obtain ⟨mode, stored, made⟩ := bind_eq_ok_iff.mp read
    cases made
    exact .inr (.inl ⟨rfl, mark, mode, stored, rfl⟩)
  have blank : Mark.create revision = .masked .zero := by
    unfold Mark.create
    split
    · exact absurd rfl first
    · exact absurd rfl second
    · rfl
  rw [blank] at read
  obtain ⟨value, _, read⟩ := bind_eq_ok_iff.mp read
  obtain ⟨mask, _, made⟩ := bind_eq_ok_iff.mp read
  cases made
  exact .inr (.inr ⟨first, second, _, rfl⟩)

theorem statement?_moded_cases (mark : UInt64) (mode : UInt8) :
    (mode ∈ [0, 1, 2] ∧
      ∃ e : Mark.Expression, (Mark.moded mark mode).statement? = some e.statement) ∨
    (mode ∉ [0, 1, 2] ∧ (Mark.moded mark mode).statement? = some "meta mark set") := by
  obtain ⟨set, and, or⟩ := Mark.statement?_moded mark
  by_cases known : mode ∈ [0, 1, 2]
  · refine .inl ⟨known, ?_⟩
    simp only [List.mem_cons, List.not_mem_nil, or_false] at known
    rcases known with rfl | rfl | rfl
    · exact ⟨_, set⟩
    · exact ⟨_, and⟩
    · exact ⟨_, or⟩
  · refine .inr ⟨known, ?_⟩
    simp only [List.mem_cons, List.not_mem_nil, or_false, not_or] at known
    obtain ⟨first, second, third⟩ := known
    unfold Mark.statement?
    dsimp only
    split
    · exact absurd rfl first
    · exact absurd rfl second
    · exact absurd rfl third
    · rfl

theorem judged_mark {m : Mark} (family : r.family = .mark)
    (ok : Mark.unpack r.revision record = .ok m) : Judged r record m.statement? := by
  have unstated : Unstated r record ↔ r.revision = 0 := by rw [Unstated, family]
  have complete (e : Mark.Expression) : Complete record r.family e.statement :=
    family ▸ .mark e
  rcases unpack_mark_cases ok with ⟨first, mark, rfl⟩ | ⟨second, mark, mode, stored, rfl⟩ |
    ⟨not_first, not_second, word, rfl⟩
  · refine judged_none (unstated.mpr first) fun modeless => ?_
    exact absurd (first.symm.trans modeless.2.1) (by decide)
  · have stated : ¬ Unstated r record := by
      rw [unstated, second]
      decide
    rcases statement?_moded_cases mark mode with ⟨known, e, told⟩ | ⟨unknown, told⟩
    · rw [told]
      refine judged_complete stated ?_ (complete e)
      rintro ⟨_, _, _, again, unknown⟩
      cases stored.symm.trans again
      exact unknown known
    · rw [told]
      refine ⟨iff_of_false nofun stated, fun same => ?_, fun _ => rfl⟩
      rw [← Option.some.inj same, family]
      refine iff_of_false (not_complete_bare record) (not_not_intro ?_)
      exact ⟨family, second, mode, stored, unknown⟩
  · rw [Mark.statement?_masked]
    exact judged_complete (mt unstated.mp not_first) (fun modeless => not_second modeless.2.1)
      (complete _)

/-! ## Classes -/

theorem complete_class {priority : UInt32} (stored : get32 0 record = .ok priority) :
    Complete record .classify ("meta priority set " ++ Classify.className priority) := by
  unfold Classify.className
  split
  · rename_i root
    exact .root (root ▸ stored)
  · split
    · rename_i nothing
      exact .none (nothing ▸ stored)
    · exact .handle stored (Classify.readHandle?_handle priority)

theorem judged_classify {c : Classify} (family : r.family = .classify)
    (ok : Classify.unpack r.revision record = .ok c) : Judged r record c.statement? := by
  have known : ¬ Modeless r record := not_modeless (by rw [family]; decide)
  have unstated : Unstated r record ↔ r.revision ≠ 0 ∧
      ∃ mask, get32 4 record = .ok mask ∧ mask ≠ MaskedWord.fullMask := by rw [Unstated, family]
  obtain ⟨_, -, read⟩ := bind_eq_ok_iff.mp ok
  by_cases first : r.revision = 0
  · rw [first] at read
    obtain ⟨priority, stored, made⟩ := bind_eq_ok_iff.mp read
    cases made
    refine judged_complete ?_ known (family ▸ complete_class stored)
    exact fun kept => (unstated.mp kept).1 first
  have blank : Classify.create r.revision = .masked .zero := by
    unfold Classify.create
    split
    · rename_i zero
      exact absurd zero first
    · rfl
  rw [blank] at read
  obtain ⟨value, stored, read⟩ := bind_eq_ok_iff.mp read
  obtain ⟨mask, rest, made⟩ := bind_eq_ok_iff.mp read
  cases made
  by_cases full : mask = MaskedWord.fullMask
  · have told : (Classify.masked ⟨value, mask⟩).statement? =
        some ("meta priority set " ++ Classify.className value) := by
      simp [Classify.statement?, Classify.priority?, full]
    rw [told]
    refine judged_complete (fun kept => ?_) known (family ▸ complete_class stored)
    obtain ⟨_, other, again, cleared⟩ := unstated.mp kept
    cases rest.symm.trans again
    exact cleared full
  · have silent : (Classify.masked ⟨value, mask⟩).statement? = none := by
      simp [Classify.statement?, Classify.priority?, full]
    rw [silent]
    exact judged_none (unstated.mpr ⟨first, mask, rest, full⟩) known

/-! ## Routes -/

theorem flags_of_unpack {m : ReversePath} (ok : ReversePath.unpack revision record = .ok m) :
    get8 0 record = .ok m.flags := by
  obtain ⟨_, -, read⟩ := bind_eq_ok_iff.mp ok
  obtain ⟨flags, stored, read⟩ := bind_eq_ok_iff.mp read
  split at read
  · cases read
    exact stored
  · obtain ⟨length, _, read⟩ := bind_eq_ok_iff.mp read
    obtain ⟨value, _, read⟩ := bind_eq_ok_iff.mp read
    obtain ⟨mask, _, made⟩ := bind_eq_ok_iff.mp read
    cases made
    exact stored

private theorem unstated_route_iff {m : ReversePath} (family : r.family = .reversePath)
    (stored : get8 0 record = .ok m.flags) : Unstated r record ↔ m.statement? = none := by
  rw [ReversePath.statement?_eq_none_iff, ReversePath.has, ReversePath.has, bne_iff_ne,
    bne_eq_false_iff_eq, Unstated, family]
  constructor
  · rintro ⟨_, again, accepts, upright⟩
    cases stored.symm.trans again
    exact ⟨accepts, upright⟩
  · rintro ⟨accepts, upright⟩
    exact ⟨m.flags, stored, accepts, upright⟩

theorem judged_route {m : ReversePath} (family : r.family = .reversePath)
    (ok : ReversePath.unpack r.revision record = .ok m) : Judged r record m.statement? := by
  have known : ¬ Modeless r record := not_modeless (by rw [family]; decide)
  have unstated := unstated_route_iff family (flags_of_unpack ok)
  by_cases silent : m.statement? = none
  · rw [silent]
    exact judged_none (unstated.mpr silent) known
  · have told : m.statement? = some m.expressed.text := by
      rw [ReversePath.statement?_eq] at silent ⊢
      split at silent
      · exact absurd rfl silent
      · rename_i stated
        exact if_neg stated
    have stated := mt unstated.mp silent
    rw [told]
    exact judged_complete stated known (family ▸ .route m.expressed)

/-! ## All records -/

/-- Each registered record that can be read is told to have no statement just where none expresses
it. A statement is complete unless the record has a mark of an unknown mode; it then breaks off
before the expression. -/
theorem statement_complete_iff (registered : r ∈ Registry.all) {ext : Extension}
    (read : r.unpack record = .ok ext) :
    ∃ statement, Rule.statement r.name r.revision record = .ok statement ∧
      Judged r record statement := by
  refine ⟨ext.statement?, ?_, ?_⟩
  · exact bind_eq_ok_iff.mpr
      ⟨r, Registry.lookup_of_mem r registered, bind_eq_ok_iff.mpr ⟨ext, read, rfl⟩⟩
  · unfold Registration.unpack Extension.Family.unpack at read
    have silent (other : r.family ∉ [.mark, .classify, .reversePath]) : Judged r record none := by
      refine judged_none ?_ (not_modeless fun family => other (by rw [family]; decide))
      unfold Unstated
      split <;> simp_all
    split at read
    all_goals
      rename_i family
      obtain ⟨own, ok, rfl⟩ := map_eq_ok_iff.mp read
    any_goals exact silent (by rw [family]; decide)
    · exact judged_mark family ok
    · exact judged_classify family ok
    · exact judged_route family ok

theorem statement_complete_iff_handle :
    let record := [0x10, 0, 1, 0, 0xff, 0xff, 0xff, 0xff]
    Rule.statement "CLASSIFY" 1 record = .ok (some "meta priority set 1:10") ∧
      Complete record .classify "meta priority set 1:10" := by
  intro record
  let r : Registration := ⟨"CLASSIFY", "CLASSIFY", .target, 1, .classify⟩
  have registered : r ∈ Registry.all := by decide
  have read : r.unpack record = .ok (.classify (.masked ⟨0x10010, 0xffffffff⟩)) := by decide
  have told : Rule.statement r.name r.revision record = .ok (some "meta priority set 1:10") := by
    decide
  obtain ⟨statement, same, judged⟩ := statement_complete_iff registered read
  cases told.symm.trans same
  exact ⟨told, (judged.complete_iff rfl).mpr (not_modeless (by decide))⟩

/-- A mark of mode 9 has a statement without an expression. -/
theorem statement_breaks_off :
    let record := [5, 0, 0, 0, 0, 0, 0, 0, 9, 0, 0, 0, 0, 0, 0, 0]
    Rule.statement "MARK" 1 record = .ok (some "meta mark set") ∧
      ¬ Complete record .mark "meta mark set" :=
  ⟨by decide, not_complete_bare _⟩

end FilterRecord.Statement
