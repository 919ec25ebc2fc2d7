/- Proofs/Target/Restoring
   digest: A saved rule of a target that stores masked words gives its record again. -/

import FilterRecord.Registry
import FilterRecord.Proofs.Arguments.Reading
import FilterRecord.Proofs.Target.Classify
import FilterRecord.Proofs.Target.IpMark
import FilterRecord.Proofs.Target.Layout
import FilterRecord.Proofs.Target.Mark

set_option autoImplicit false
set_option relaxedAutoImplicit false

namespace FilterRecord.Extension

open Text
open Options (Register)

/-- The targets that store masked words, with numbers that their options can state. -/
def Storable : Extension → Prop
  | mark m => m.Storable
  | classify _ => True
  | ipMark m => m.Storable
  | connTrack _ | socket _ | reversePath _ => False

def family : Extension → Family
  | mark _ => .mark
  | classify _ => .classify
  | ipMark _ => .ipMark
  | connTrack _ => .connTrack
  | socket _ => .socket
  | reversePath _ => .reversePath

def fresh (ext : Extension) : Extension := ext.family.create ext.revision

theorem family_registered (ext : Extension) :
    (Registry.all.find? (·.realName == ext.name)).map (·.family) = some ext.family := by
  cases ext <;> rfl

theorem tokens_saved (host : Context) {ext : Extension} (storable : ext.Storable) :
    tokens (ext.saved host) = ext.savedWords host := by
  refine tokens_render ?_
  cases ext with
  | mark m => exact m.solid_savedWords
  | classify c => exact c.solid_savedWords
  | ipMark m => exact m.solid_savedWords
  | connTrack | socket | reversePath => exact storable.elim

theorem restored_storable (host : Context) {ext : Extension} (storable : ext.Storable) :
    ∃ seen, ext.fresh.applyTokens host (tokens (ext.saved host)) = (ext, .ok seen) := by
  rw [tokens_saved host storable]
  cases ext with
  | mark m => exact Mark.restored host storable
  | classify c => exact Classify.restored host c
  | ipMark m => exact IpMark.restored host storable
  | connTrack | socket | reversePath => exact storable.elim

theorem storable_apply {host : Context} {ext next : Extension} {o : Options.Occurrence}
    (storable : ext.Storable) (ok : ext.apply host o = (next, .ok ())) :
    next.Storable ∧ next.fresh = ext.fresh := by
  cases ext with
  | mark m =>
    obtain ⟨made, applied, rfl⟩ := map_eq_ok_iff.mp (commit_ok ok)
    refine ⟨Mark.storable_apply applied, ?_⟩
    exact congrArg (fun revision => Extension.mark (Mark.create revision))
      (Mark.revision_apply applied)
  | classify c =>
    obtain ⟨made, applied, rfl⟩ := map_eq_ok_iff.mp (commit_ok ok)
    refine ⟨trivial, ?_⟩
    exact congrArg (fun revision => Extension.classify (Classify.create revision))
      (Classify.revision_apply applied)
  | ipMark m =>
    obtain ⟨made, applied, rfl⟩ := map_eq_ok_iff.mp (commit_ok ok)
    refine ⟨IpMark.storable_apply storable applied, ?_⟩
    exact congrArg (fun revision => Extension.ipMark (IpMark.create revision))
      (IpMark.revision_apply applied)
  | connTrack | socket | reversePath => exact storable.elim

theorem storable_applyTokens {host : Context} {ext last : Extension} {words : List String}
    {final : Register} (storable : ext.Storable)
    (accepted : ext.applyTokens host words = (last, .ok final)) :
    last.Storable ∧ last.fresh = ext.fresh := by
  refine applyTokens_induction (P := fun _ _ current => current.Storable ∧
    current.fresh = ext.fresh) accepted ⟨storable, rfl⟩ ?_
  rintro _ _ current next o ⟨kept, blank⟩ - - taken
  obtain ⟨next_kept, next_blank⟩ := storable_apply kept taken
  exact ⟨next_kept, next_blank.trans blank⟩

private theorem fresh_congr {a b : Extension} (name : a.name = b.name)
    (revision : a.revision = b.revision) : a.fresh = b.fresh := by
  have family := a.family_registered
  rw [name, b.family_registered] at family
  rw [fresh, fresh, revision, Option.some.inj family]

/-- The saved text of a storable target, cut into tokens, leads a fresh rule to the same record, so
no other record of the extension and revision is saved as the same text. -/
theorem applyTokens_saved (host : Context) {ext : Extension} (storable : ext.Storable) :
    (∃ seen, ext.fresh.applyTokens host (tokens (ext.saved host)) = (ext, .ok seen)) ∧
      ∀ other : Extension, other.Storable → other.name = ext.name →
        other.revision = ext.revision → other.saved host = ext.saved host → other = ext := by
  refine ⟨restored_storable host storable, ?_⟩
  intro other storable' name revision text
  obtain ⟨seen, mine⟩ := restored_storable host storable
  obtain ⟨seen', theirs⟩ := restored_storable host storable'
  rw [text, fresh_congr name revision, mine] at theirs
  exact congrArg Prod.fst theirs.symm

theorem applyTokens_saved_shift : (ipMark (.masked ⟨0x10, 0xff⟩ 1 3)).Storable ∧
    (ipMark (.masked ⟨0x10, 0xff⟩ 1 3)).saved .empty =
      " --dst-addr --shift 3 --set-xmark 0x10/0xff" ∧
    ∃ seen, (ipMark (.masked ⟨0x10, 0xff⟩ 1 3)).fresh.applyTokens .empty
      (tokens ((ipMark (.masked ⟨0x10, 0xff⟩ 1 3)).saved .empty)) =
        (ipMark (.masked ⟨0x10, 0xff⟩ 1 3), .ok seen) := by
  have storable : (ipMark (.masked ⟨0x10, 0xff⟩ 1 3)).Storable := by
    change (1 : UInt8) ≤ 1
    decide
  exact ⟨storable, by decide, (applyTokens_saved .empty storable).1⟩

end FilterRecord.Extension
