/- Proofs/Match/ReversePath
   digest: What each rpfilter option does to a record, and what its layout keeps of it. -/

import FilterRecord.Match.ReversePath
import FilterRecord.Proofs.Mask.Bits
import FilterRecord.Proofs.Outcome
import FilterRecord.Proofs.Record.Field

set_option autoImplicit false
set_option relaxedAutoImplicit false

namespace FilterRecord.ReversePath

open FilterRecord.Field
open Options (Occurrence)

/-- What an accepted option makes of a record. -/
inductive Step (groups : DeviceGroups) (m : ReversePath) (o : Occurrence) : ReversePath → Prop
  | loose : o.entry.id = Id.loose → Step groups m o (m.withFlags Flag.loose)
  | validMark : o.entry.id = Id.validMark → Step groups m o (m.withFlags Flag.validMark)
  | acceptLocal : o.entry.id = Id.acceptLocal → Step groups m o (m.withFlags Flag.acceptLocal)
  | invert : o.entry.id = Id.invert → Step groups m o (m.withFlags Flag.invert)
  | prefixLength {n : UInt8} : o.entry.id = Id.prefixLength → m.revision ≠ 0 →
    o.operand = .prefixLength n →
    Step groups m o (withFlags { m with prefixLength := n }
      (if o.inverted then Flag.prefixLength ||| Flag.prefixLengthInverted else Flag.prefixLength))
  | group {text : String} {word : MaskedWord} : o.entry.id = Id.group → m.revision ≠ 0 →
    o.operand = .text text → groups.readMasked? text = some word →
    Step groups m o (withFlags { m with group := word }
      (if o.inverted then Flag.group ||| Flag.groupInverted else Flag.group))

variable {groups : DeviceGroups} {m next : ReversePath} {o : Occurrence}

theorem step_of_apply (ok : m.apply groups o = .ok next) : Step groups m o next := by
  unfold apply at ok
  split at ok
  · exact absurd ok (by simp)
  · rename_i supported
    have room (needs : needsRevisionOne o.entry.id = true) : m.revision ≠ 0 := by
      intro zero
      exact supported (by simp [needs, zero])
    split at ok
    · rename_i id
      cases ok
      exact .loose id
    · rename_i id
      cases ok
      exact .validMark id
    · rename_i id
      cases ok
      exact .acceptLocal id
    · rename_i id
      cases ok
      exact .invert id
    · rename_i id operand
      cases ok
      exact .prefixLength id (room (by rw [id]; rfl)) operand
    · rename_i id operand
      split at ok
      · rename_i read
        cases ok
        exact .group id (room (by rw [id]; rfl)) operand read
      · exact absurd ok (by simp)
    · exact absurd ok (by simp)

theorem revision_step (step : Step groups m o next) : next.revision = m.revision := by
  cases step <;> rfl

structure Fits (m : ReversePath) : Prop where
  first : m.revision = 0 → m.prefixLength = 0 ∧ m.group = .zero

theorem fits_create (revision : UInt8) : (create revision).Fits where
  first := fun _ => ⟨rfl, rfl⟩

theorem fits_step (fits : m.Fits) (step : Step groups m o next) : next.Fits where
  first zero := by
    rw [revision_step step] at zero
    cases step with
    | loose | validMark | acceptLocal | invert => exact fits.first zero
    | prefixLength _ later | group _ later => exact absurd zero later

private theorem first_eq (fits : m.Fits) (first : m.revision = 0) :
    { create m.revision with flags := m.flags } = m := by
  obtain ⟨length, group⟩ := fits.first first
  cases m
  simp_all [create]

private theorem unpack_first (fits : m.Fits) (first : m.revision = 0) :
    unpack m.revision m.pack = .ok m := by
  have bytes : m.pack = [m.flags] ++ zeros 7 := by
    simp [pack, first]
  have flags : get8 0 m.pack = .ok m.flags := get8_of_holds (by
    rw [bytes]
    exact holds_first _ _)
  have length : m.pack.length = size m.revision := by
    rw [bytes]
    simp [size, first, align]
  rw [unpack, checkSize_of_length length, flags]
  simpa [first, bind, Except.bind, pure, Except.pure] using first_eq fits first

private theorem unpack_later (later : m.revision ≠ 0) : unpack m.revision m.pack = .ok m := by
  have bytes : m.pack = [m.flags] ++ ([m.prefixLength] ++ (zeros 2 ++
      (word32 m.group.value ++ (word32 m.group.mask ++ zeros 4)))) := by
    simp [pack, later, MaskedWord.pack]
  have flags : get8 0 m.pack = .ok m.flags := get8_of_holds (by
    rw [bytes]
    exact holds_first _ _)
  have prefixLength : get8 1 m.pack = .ok m.prefixLength := get8_of_holds (by
    rw [bytes]
    exact holds_after [m.flags] (holds_first _ _))
  have value : get32 4 m.pack = .ok m.group.value := get32_of_holds (by
    rw [bytes]
    simpa using holds_after [m.flags] (holds_after [m.prefixLength] (holds_after (zeros 2)
      (holds_first _ _))))
  have mask : get32 8 m.pack = .ok m.group.mask := get32_of_holds (by
    rw [bytes]
    simpa using holds_after [m.flags] (holds_after [m.prefixLength] (holds_after (zeros 2)
      (holds_after (word32 m.group.value) (holds_first _ _)))))
  have length : m.pack.length = size m.revision := by
    rw [bytes]
    simp [size, later, align]
  rw [unpack, checkSize_of_length length, flags, prefixLength, value, mask]
  simp [later, bind, Except.bind, pure, Except.pure]

theorem unpack_pack (fits : m.Fits) : unpack m.revision m.pack = .ok m := by
  by_cases first : m.revision = 0
  · exact unpack_first fits first
  · exact unpack_later first

theorem revision_of_unpack {revision : UInt8} {record : Bytes} {m : ReversePath}
    (ok : unpack revision record = .ok m) : m.revision = revision := by
  obtain ⟨_, -, read⟩ := bind_eq_ok_iff.mp ok
  obtain ⟨flags, -, read⟩ := bind_eq_ok_iff.mp read
  split at read
  · cases read
    rfl
  · obtain ⟨length, -, read⟩ := bind_eq_ok_iff.mp read
    obtain ⟨value, -, read⟩ := bind_eq_ok_iff.mp read
    obtain ⟨mask, -, read⟩ := bind_eq_ok_iff.mp read
    cases read
    rfl

end FilterRecord.ReversePath
