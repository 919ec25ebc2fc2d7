/- Proofs/Target/Layout
   digest: The targets that store masked words keep their layout and are read back from it. -/

import FilterRecord.Target.Classify
import FilterRecord.Target.IpMark
import FilterRecord.Target.Mark
import FilterRecord.Proofs.Outcome
import FilterRecord.Proofs.Record.Field

set_option autoImplicit false
set_option relaxedAutoImplicit false

namespace FilterRecord

open FilterRecord.Field
open Options (Occurrence)

namespace MaskedWord

@[simp] theorem length_pack (w : MaskedWord) : w.pack.length = 8 := by
  simp [pack]

theorem holds_value (w : MaskedWord) (rest : Bytes) :
    Holds 0 (word32 w.value) (w.pack ++ rest) := by
  rw [pack, List.append_assoc]
  exact holds_first _ _

theorem holds_mask (w : MaskedWord) (rest : Bytes) :
    Holds 4 (word32 w.mask) (w.pack ++ rest) := by
  rw [pack, List.append_assoc]
  simpa using holds_after (word32 w.value) (holds_first (word32 w.mask) rest)

end MaskedWord

namespace Mark

theorem unpack_pack (m : Mark) : unpack m.revision m.pack = .ok m := by
  cases m with
  | plain mark =>
    have read : get64 0 (word64 mark) = .ok mark := get64_of_holds (holds_all _)
    simp only [unpack, revision, pack, create]
    rw [checkSize_of_length (by simp [size, align]), read]
    rfl
  | moded mark mode =>
    have first : get64 0 (word64 mark ++ ([mode] ++ zeros 7)) = .ok mark :=
      get64_of_holds (holds_first _ _)
    have second : get8 8 (word64 mark ++ ([mode] ++ zeros 7)) = .ok mode :=
      get8_of_holds (by simpa using holds_after (word64 mark) (holds_first [mode] (zeros 7)))
    simp only [unpack, revision, pack, create, List.append_assoc]
    rw [checkSize_of_length (by simp [size, align]), first, second]
    rfl
  | masked word =>
    have value : get32 0 word.pack = .ok word.value :=
      get32_of_holds (by simpa using word.holds_value [])
    have mask : get32 4 word.pack = .ok word.mask :=
      get32_of_holds (by simpa using word.holds_mask [])
    simp only [unpack, revision, pack, create]
    rw [checkSize_of_length (by simp [size, align]), value, mask]
    rfl

theorem create_of_unpack {revision : UInt8} {record : Bytes} {m : Mark}
    (ok : unpack revision record = .ok m) : create m.revision = create revision := by
  have blanks : create revision = plain 0 ∨ create revision = moded 0 0 ∨
      create revision = masked .zero := by
    unfold create
    split <;> simp
  unfold unpack at ok
  rcases blanks with blank | blank | blank
  · rw [blank] at ok ⊢
    obtain ⟨_, -, read⟩ := bind_eq_ok_iff.mp ok
    obtain ⟨mark, -, made⟩ := bind_eq_ok_iff.mp read
    cases made
    rfl
  · rw [blank] at ok ⊢
    obtain ⟨_, -, read⟩ := bind_eq_ok_iff.mp ok
    obtain ⟨mark, -, read⟩ := bind_eq_ok_iff.mp read
    obtain ⟨mode, -, made⟩ := bind_eq_ok_iff.mp read
    cases made
    rfl
  · rw [blank] at ok ⊢
    obtain ⟨_, -, read⟩ := bind_eq_ok_iff.mp ok
    obtain ⟨value, -, read⟩ := bind_eq_ok_iff.mp read
    obtain ⟨mask, -, made⟩ := bind_eq_ok_iff.mp read
    cases made
    rfl

theorem revision_store {m next : Mark} {op : Operation} (stored : m.store op = some next) :
    next.revision = m.revision := by
  unfold store at stored
  split at stored <;> cases stored <;> rfl

theorem revision_apply {m next : Mark} {o : Occurrence} (ok : m.apply o = .ok next) :
    next.revision = m.revision := by
  unfold apply at ok
  split at ok
  · exact absurd ok (by simp)
  · split at ok
    · exact absurd ok (by simp)
    · split at ok
      · rename_i stored
        cases ok
        exact revision_store stored
      · exact absurd ok (by simp)

end Mark

namespace Classify

theorem unpack_pack (c : Classify) : unpack c.revision c.pack = .ok c := by
  cases c with
  | plain priority =>
    have read : get32 0 (word32 priority ++ zeros 4) = .ok priority :=
      get32_of_holds (holds_first _ _)
    simp only [unpack, revision, pack, create]
    rw [checkSize_of_length (by simp [size, align]), read]
    rfl
  | masked word =>
    have value : get32 0 word.pack = .ok word.value :=
      get32_of_holds (by simpa using word.holds_value [])
    have mask : get32 4 word.pack = .ok word.mask :=
      get32_of_holds (by simpa using word.holds_mask [])
    simp only [unpack, revision, pack, create]
    rw [checkSize_of_length (by simp [size, align]), value, mask]
    rfl

theorem create_of_unpack {revision : UInt8} {record : Bytes} {c : Classify}
    (ok : unpack revision record = .ok c) : create c.revision = create revision := by
  have blanks : create revision = plain 0 ∨ create revision = masked .zero := by
    unfold create
    split <;> simp
  unfold unpack at ok
  rcases blanks with blank | blank
  · rw [blank] at ok ⊢
    obtain ⟨_, -, read⟩ := bind_eq_ok_iff.mp ok
    obtain ⟨priority, -, made⟩ := bind_eq_ok_iff.mp read
    cases made
    rfl
  · rw [blank] at ok ⊢
    obtain ⟨_, -, read⟩ := bind_eq_ok_iff.mp ok
    obtain ⟨value, -, read⟩ := bind_eq_ok_iff.mp read
    obtain ⟨mask, -, made⟩ := bind_eq_ok_iff.mp read
    cases made
    rfl

theorem revision_store {c next : Classify} {op : Operation}
    (stored : c.store op = some next) : next.revision = c.revision := by
  unfold store at stored
  split at stored <;> cases stored <;> rfl

theorem revision_apply {c next : Classify} {o : Occurrence} (ok : c.apply o = .ok next) :
    next.revision = c.revision := by
  unfold apply at ok
  split at ok
  · exact absurd ok (by simp)
  · split at ok
    · exact absurd ok (by simp)
    · split at ok
      · rename_i stored
        cases ok
        exact revision_store stored
      · exact absurd ok (by simp)

end Classify

namespace IpMark

private theorem unpack_fields (revision : UInt8) (word : MaskedWord) (byte shift : UInt8) :
    unpack revision (word.pack ++ ([byte, shift] ++ zeros 6)) =
      match create revision with
      | address .. => .ok (address word.value word.mask byte shift)
      | masked .. => .ok (masked word byte shift) := by
  have value := get32_of_holds (word.holds_value ([byte, shift] ++ zeros 6))
  have mask := get32_of_holds (word.holds_mask ([byte, shift] ++ zeros 6))
  have eighth : get8 8 (word.pack ++ ([byte, shift] ++ zeros 6)) = .ok byte :=
    get8_of_holds (by simpa using holds_after word.pack (holds_first [byte] ([shift] ++ zeros 6)))
  have ninth : get8 9 (word.pack ++ ([byte, shift] ++ zeros 6)) = .ok shift :=
    get8_of_holds (by
      simpa using holds_after word.pack (holds_after [byte] (holds_first [shift] (zeros 6))))
  rw [unpack, checkSize_of_length (by simp [size, align]), value, mask, eighth, ninth]
  rfl

theorem unpack_pack (m : IpMark) : unpack m.revision m.pack = .ok m := by
  cases m with
  | address andMask orMask selector shift =>
    have fields := unpack_fields 1 ⟨andMask, orMask⟩ selector shift
    simpa [revision, pack, MaskedWord.pack, create] using fields
  | masked word flags shift =>
    have fields := unpack_fields 2 word flags shift
    simpa [revision, pack, create] using fields

theorem create_of_unpack {revision : UInt8} {record : Bytes} {m : IpMark}
    (ok : unpack revision record = .ok m) : create m.revision = create revision := by
  have blanks : create revision = address MaskedWord.fullMask 0 0 0 ∨
      create revision = masked .zero 0 0 := by
    unfold create
    split <;> simp
  obtain ⟨_, -, read⟩ := bind_eq_ok_iff.mp ok
  obtain ⟨first, -, read⟩ := bind_eq_ok_iff.mp read
  obtain ⟨second, -, read⟩ := bind_eq_ok_iff.mp read
  obtain ⟨byte, -, read⟩ := bind_eq_ok_iff.mp read
  obtain ⟨shift, -, made⟩ := bind_eq_ok_iff.mp read
  rcases blanks with blank | blank
  · rw [blank] at made ⊢
    cases made
    rfl
  · rw [blank] at made ⊢
    cases made
    rfl

theorem revision_store {m next : IpMark} {op : Operation}
    (stored : m.store op = some next) : next.revision = m.revision := by
  unfold store at stored
  split at stored <;> cases stored
  rfl

private theorem revision_applyOperation {m next : IpMark} {o : Occurrence}
    (ok : m.applyOperation o = .ok next) : next.revision = m.revision := by
  unfold applyOperation at ok
  split at ok
  · exact absurd ok (by simp)
  · split at ok
    · exact absurd ok (by simp)
    · split at ok
      · rename_i stored
        cases ok
        exact revision_store stored
      · exact absurd ok (by simp)

theorem revision_apply {m next : IpMark} {o : Occurrence} (ok : m.apply o = .ok next) :
    next.revision = m.revision := by
  have source : m.selectSource.revision = m.revision := by cases m <;> rfl
  have destination : m.selectDestination.revision = m.revision := by cases m <;> rfl
  unfold apply at ok
  split at ok
  · split at ok
    · cases ok
      exact source
    · split at ok
      · cases ok
        exact destination
      · exact absurd ok (by simp)
  · cases ok
    exact source
  · cases ok
    exact destination
  · cases ok
    cases m <;> rfl
  · split at ok
    · cases ok
      rfl
    · exact absurd ok (by simp)
  · split at ok
    · cases ok
      rfl
    · exact absurd ok (by simp)
  · exact revision_applyOperation ok

end IpMark

end FilterRecord
