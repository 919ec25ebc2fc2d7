/- Proofs/Session
   digest: No step of a session, accepted or refused, changes the shape of the record. -/

import FilterRecord.Proofs.Unpacking

set_option autoImplicit false
set_option relaxedAutoImplicit false

namespace FilterRecord

open FilterRecord.Field
open Options (Occurrence Register commit)

theorem ConnTrack.revision_apply (t : ConnTrack) (o : Occurrence) :
    (t.apply o).1.revision = t.revision := by
  have zone (direction : UInt16) : (applyZone direction t o).1.revision = t.revision := by
    unfold applyZone
    dsimp only
    split
    · rfl
    · split <;> rfl
  have field {α : Type} (made : α → ConnTrack) (read : Except RuleError α)
      (kept : (fun a => (made a).revision) = fun _ => t.revision) :
      (commit t (read.map made)).1.revision = t.revision := by
    refine commit_keeps (P := fun s : ConnTrack => s.revision = t.revision) rfl fun next ok => ?_
    obtain ⟨a, -, rfl⟩ := map_eq_ok_iff.mp ok
    exact congrFun kept a
  unfold apply
  split
  · rfl
  · split
    · rfl
    · exact zone 0
    · exact zone Flag.initial
    · exact zone Flag.reply
    · exact field _ _ rfl
    · exact field _ _ rfl
    · exact field _ _ rfl
    · exact field _ _ rfl
    · rfl

namespace Extension

/-- An extension of a family with the layout that a revision has. -/
structure Shaped (family : Family) (revision : UInt8) (ext : Extension) : Prop where
  owned : family.Owns ext
  revision : ext.revision = (family.create revision).revision

variable {family : Family} {revision : UInt8} {ext : Extension}

theorem shaped_create (family : Family) (revision : UInt8) :
    Shaped family revision (family.create revision) :=
  ⟨owns_create family revision, rfl⟩

theorem shaped_unpack {record : Bytes} (ok : family.unpack revision record = .ok ext) :
    Shaped family revision ext :=
  ⟨Family.owns_of_unpack ok, Family.revision_of_unpack ok⟩

theorem shaped_apply (host : Context) (o : Occurrence) (shaped : Shaped family revision ext) :
    Shaped family revision (ext.apply host o).1 := by
  obtain ⟨owned, same⟩ := shaped
  cases owned with
  | mark m =>
    refine commit_keeps ⟨.mark m, same⟩ fun next ok => ?_
    obtain ⟨made, applied, rfl⟩ := map_eq_ok_iff.mp ok
    exact ⟨.mark made, (Mark.revision_apply applied).trans same⟩
  | classify c =>
    refine commit_keeps ⟨.classify c, same⟩ fun next ok => ?_
    obtain ⟨made, applied, rfl⟩ := map_eq_ok_iff.mp ok
    exact ⟨.classify made, (Classify.revision_apply applied).trans same⟩
  | ipMark m =>
    refine commit_keeps ⟨.ipMark m, same⟩ fun next ok => ?_
    obtain ⟨made, applied, rfl⟩ := map_eq_ok_iff.mp ok
    exact ⟨.ipMark made, (IpMark.revision_apply applied).trans same⟩
  | connTrack t => exact ⟨.connTrack _, (t.revision_apply o).trans same⟩
  | noTrack t => exact ⟨.noTrack _, (t.revision_apply o).trans same⟩
  | socket m =>
    refine commit_keeps ⟨.socket m, same⟩ fun next ok => ?_
    obtain ⟨made, applied, rfl⟩ := map_eq_ok_iff.mp ok
    exact ⟨.socket made,
      (SocketMatch.revision_step (SocketMatch.step_of_apply applied)).trans same⟩
  | reversePath m =>
    refine commit_keeps ⟨.reversePath m, same⟩ fun next ok => ?_
    obtain ⟨made, applied, rfl⟩ := map_eq_ok_iff.mp ok
    exact ⟨.reversePath made,
      (ReversePath.revision_step (ReversePath.step_of_apply applied)).trans same⟩

theorem shaped_applyTokens (host : Context) (tokens : List String)
    (shaped : Shaped family revision ext) :
    Shaped family revision (ext.applyTokens host tokens).1 :=
  applyTokens_keeps shaped fun _ o _ _ current => shaped_apply host o current

end Extension

namespace Session

/-- A step on an extension that lives on through a session. -/
inductive Step
  /-- The tokens of a rule. -/
  | parse (tokens : List String)
  /-- One option, with any row, argument, operand and inversion. -/
  | call (o : Occurrence)
  /-- The last check of a rule with some options. -/
  | check (seen : Register)
  /-- Another record in place of the extension. -/
  | unpack (record : Bytes)
deriving Repr

/-- The extension after a step. A refused rule or option leaves what it did before the refusal, and
a refused record leaves the extension. -/
def Step.run (host : Context) (family : Extension.Family) (revision : UInt8) (ext : Extension) :
    Step → Extension × Except RuleError Unit
  | parse tokens => (ext.applyTokens host tokens).map id (·.map fun _ => ())
  | call o => ext.apply host o
  | check seen => (ext, ext.finalCheck seen)
  | unpack record => commit ext (family.unpack revision record)

def run (host : Context) (family : Extension.Family) (revision : UInt8) (steps : List Step) :
    Extension :=
  steps.foldl (fun ext step => (step.run host family revision ext).1) (family.create revision)

variable {family : Extension.Family} {revision : UInt8}

theorem shaped_step (host : Context) (step : Step) {ext : Extension}
    (shaped : ext.Shaped family revision) :
    (step.run host family revision ext).1.Shaped family revision := by
  cases step with
  | parse tokens => exact Extension.shaped_applyTokens host tokens shaped
  | call o => exact Extension.shaped_apply host o shaped
  | check seen => exact shaped
  | unpack record => exact commit_keeps shaped fun _ ok => Extension.shaped_unpack ok

/-- What a fresh extension has, and every step keeps, holds after all steps. -/
theorem run_keeps {host : Context} {P : Extension → Prop} {steps : List Step}
    (start : P (family.create revision))
    (kept : ∀ step ∈ steps, ∀ ext, P ext → P (step.run host family revision ext).1) :
    P (run host family revision steps) := by
  unfold run
  generalize family.create revision = ext at start
  induction steps generalizing ext with
  | nil => exact start
  | cons step rest ih =>
    exact ih (fun later member => kept later (by simp [member])) _ (kept step (by simp) ext start)

theorem shaped_run (host : Context) (family : Extension.Family) (revision : UInt8)
    (steps : List Step) : (run host family revision steps).Shaped family revision :=
  run_keeps (Extension.shaped_create family revision) fun step _ _ shaped =>
    shaped_step host step shaped

/-- After any steps a record has the revision and the sizes that it was made with. It is packed
within its size, and read again with or without the bytes that only the kernel writes. -/
theorem shape_run (host : Context) (family : Extension.Family) (revision : UInt8)
    (steps : List Step) :
    let blank := family.create revision
    let ext := run host family revision steps
    ext.revision = blank.revision ∧ ext.size = blank.size ∧
      ext.userspaceSize = blank.userspaceSize ∧ ext.userspaceSize ≤ ext.size ∧ 8 ∣ ext.size ∧
      (∀ w ∈ ext.writes, w.offset + w.bytes.length ≤ ext.size) ∧
      ext.pack = puts ext.writes (zeros ext.size) ∧ ext.pack.length = ext.size ∧
      (∃ made, family.unpack revision ext.pack = .ok made) ∧
      ∃ made, family.unpack revision (ext.pack.take ext.userspaceSize) = .ok made := by
  intro blank ext
  have shaped := shaped_run host family revision steps
  have owned : family.Owns ext := shaped.owned
  have same : ext.revision = blank.revision := shaped.revision
  obtain ⟨full, short⟩ := Extension.size_eq owned
  obtain ⟨full_blank, short_blank⟩ : blank.size = _ ∧ blank.userspaceSize + _ = blank.size :=
    Extension.size_eq (Extension.owns_create family revision)
  rw [same] at full short
  have size : ext.size = blank.size := full.trans full_blank.symm
  have userspace : ext.userspaceSize = blank.userspaceSize := by omega
  have length : ext.pack.length = ext.size := Extension.length_pack owned
  have first : (ext.pack.take ext.userspaceSize).length = ext.userspaceSize := by
    rw [List.length_take]
    omega
  refine ⟨same, size, userspace, by omega, ?_, ?_, ext.pack_eq_puts, length, ?_, ?_⟩
  · rw [full]
    exact (family.sound_layout _).aligned
  · intro w member
    have fits := Extension.fits_writes owned member
    omega
  · exact Extension.Family.exists_unpack (.inl (length.trans size))
  · exact Extension.Family.exists_unpack (.inr (first.trans userspace))

end Session

end FilterRecord
