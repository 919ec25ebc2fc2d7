/- Proofs/Newer
   digest: A newer revision accepts every rule of an older one, with the same meaning. -/

import FilterRecord.Proofs.Match.Newer
import FilterRecord.Proofs.Session
import FilterRecord.Proofs.Target.Newer

set_option autoImplicit false
set_option relaxedAutoImplicit false

namespace FilterRecord

variable {host : Context} {tokens : List String} {last : Extension} {seen : Options.Register}

/-- A rule of an older revision is accepted by a newer one, and saved as the same. -/
theorem Extension.Family.applyTokens_newer {family : Extension.Family}
    (known : family ∈ [classify, connTrack, socket, reversePath]) {older newer : UInt8}
    (le : (family.create older).revision ≤ (family.create newer).revision) (later : newer ≠ 0)
    (accepted : (family.create older).applyTokens host tokens = (last, .ok seen)) :
    ∃ made, (family.create newer).applyTokens host tokens = (made, .ok seen) ∧
      made.saved host = last.saved host := by
  cases family with
  | classify => exact Classify.applyTokens_newer le accepted
  | connTrack => exact ConnTrack.applyTokens_newer later accepted
  | socket => exact SocketMatch.applyTokens_newer le later accepted
  | reversePath => exact ReversePath.applyTokens_newer later accepted
  | mark | ipMark | noTrack => simp at known

namespace Registration

/-- The names whose revisions only add to the options and layouts of the earlier ones. -/
def growing : List String := ["MARK", "CLASSIFY", "CT", "socket", "rpfilter"]

theorem family_eq_of_name : ∀ r ∈ Registry.all, ∀ s ∈ Registry.all, r.name = s.name →
    s.family = r.family := by
  decide

theorem family_of_growing : ∀ r ∈ Registry.all, r.name ∈ growing →
    (r.name = "MARK" ∧ r.family = .mark) ∨
      (r.name ≠ "MARK" ∧ r.family ∈ [.classify, .connTrack, .socket, .reversePath]) := by
  decide

theorem carries_of_fits {r : Registration} (registered : r ∈ Registry.all)
    (accepted : r.create.applyTokens host tokens = (last, .ok seen)) (fits : last.Fits) :
    r.Carries last := by
  have shaped := Extension.shaped_applyTokens host tokens
    (Extension.shaped_create r.family r.revision)
  rw [← create, accepted] at shaped
  exact ⟨shaped.owned, shaped.revision.trans (Registry.revision_create r registered), fits⟩

end Registration

namespace Rule

/-- What is parsed at a revision is parsed at every newer one of the same name. It is saved as the
same, but for MARK, whose masked words have one text for all spellings of an operation: there the
two records, as they are read back, change every mark alike. -/
theorem parse_newer {r s : Registration} (older : r ∈ Registry.all) (newer : s ∈ Registry.all)
    (named : r.name ∈ Registration.growing) (same : r.name = s.name)
    (lower : r.revision < s.revision) {numeric : Bool} {result : RuleView}
    (parsed : parse r.name (some r.revision) tokens numeric host = .ok result) :
    ∃ again, parse s.name (some s.revision) tokens numeric host = .ok again ∧
      (r.name ≠ "MARK" → again.view.saved = result.view.saved) ∧
      (r.name = "MARK" → ∃ m n, r.unpack result.view.record = .ok (.mark m) ∧
        s.unpack again.view.record = .ok (.mark n) ∧
        ∀ old : UInt32, ∃ new, m.effect? old = some new ∧ n.effect? old = some new) := by
  obtain ⟨_, last, seen, lookup, accepted, rfl⟩ := parse_ok parsed
  cases (Registry.lookup_of_mem r older).symm.trans lookup
  have lookup_newer := Registry.lookup_of_mem s newer
  have le : r.create.revision ≤ s.create.revision := by
    rw [Registry.revision_create r older, Registry.revision_create s newer]
    exact UInt8.le_of_lt lower
  have shared := Registration.family_eq_of_name r older s newer same
  rcases Registration.family_of_growing r older named with ⟨mark, family⟩ | ⟨other, family⟩
  · have created : r.create = .mark (Mark.create r.revision) := by
      rw [Registration.create, family]
      rfl
    have created_newer : s.create = .mark (Mark.create s.revision) := by
      rw [Registration.create, shared, family]
      rfl
    rw [created, created_newer] at le
    rw [created] at accepted
    obtain ⟨m, n, rfl, accepted_newer, op, effects⟩ := Mark.applyTokens_newer le accepted
    rw [← created] at accepted
    rw [← created_newer] at accepted_newer
    refine ⟨_, parse_of_applyTokens lookup_newer accepted_newer,
      fun other => absurd mark other, fun _ => ⟨m, n, ?_, ?_, fun old => ⟨_, effects old⟩⟩⟩
    · exact Registration.unpack_pack (Registration.carries_of_fits older accepted trivial)
    · exact Registration.unpack_pack (Registration.carries_of_fits newer accepted_newer trivial)
  · have later : s.revision ≠ 0 := fun zero => UInt8.not_lt_zero (zero ▸ lower)
    rw [Registration.create, Registration.create, shared] at le
    obtain ⟨made, accepted_newer, saved⟩ :=
      Extension.Family.applyTokens_newer family le later accepted
    rw [← shared] at accepted_newer
    exact ⟨_, parse_of_applyTokens lookup_newer accepted_newer, fun _ => saved,
      fun mark => absurd mark other⟩

/-- To turn no bit on is saved by a newer revision as to keep all bits. -/
theorem parse_newer_or_mark :
    let r : Registration := ⟨"MARK", "MARK", .target, 1, .mark⟩
    let s : Registration := ⟨"MARK", "MARK", .target, 2, .mark⟩
    r ∈ Registry.all ∧ s ∈ Registry.all ∧ r.name ∈ Registration.growing ∧ r.name = s.name ∧
      r.revision < s.revision ∧ ∃ result again m n,
        parse r.name (some r.revision) ["--or-mark", "0"] false .empty = .ok result ∧
        parse s.name (some s.revision) ["--or-mark", "0"] false .empty = .ok again ∧
        result.view.saved = " --or-mark 0x0" ∧
        again.view.saved = " --and-mark 0xffffffff" ∧
        r.unpack result.view.record = .ok (.mark m) ∧ s.unpack again.view.record = .ok (.mark n) ∧
        ∀ old : UInt32, ∃ new, m.effect? old = some new ∧ n.effect? old = some new := by
  intro r s
  have older : r ∈ Registry.all := by decide
  have newer : s ∈ Registry.all := by decide
  have named : r.name ∈ Registration.growing := by decide
  have lower : r.revision < s.revision := by decide
  obtain ⟨result, parsed, saved⟩ : ∃ result,
      parse r.name (some r.revision) ["--or-mark", "0"] false .empty = .ok result ∧
        result.view.saved = " --or-mark 0x0" := ⟨_, by with_unfolding_all rfl, by decide⟩
  obtain ⟨direct, parsed_newer, saved_newer⟩ : ∃ direct,
      parse s.name (some s.revision) ["--or-mark", "0"] false .empty = .ok direct ∧
        direct.view.saved = " --and-mark 0xffffffff" := ⟨_, by with_unfolding_all rfl, by decide⟩
  obtain ⟨again, parsed_again, -, effects⟩ := parse_newer older newer named rfl lower parsed
  cases parsed_newer.symm.trans parsed_again
  obtain ⟨m, n, read, read_newer, alike⟩ := effects rfl
  exact ⟨older, newer, named, rfl, lower, result, direct, m, n, parsed, parsed_newer, saved,
    saved_newer, read, read_newer, alike⟩

end Rule

end FilterRecord
