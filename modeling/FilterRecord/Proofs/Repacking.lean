/- Proofs/Repacking
   digest: A record that is unpacked and packed again keeps every live byte of its layout. -/

import FilterRecord.Proofs.Record.NameSlot
import FilterRecord.Proofs.Unpacking

set_option autoImplicit false
set_option relaxedAutoImplicit false

namespace FilterRecord

open Text FilterRecord.Field

/-- A packed record has every live byte of another one, and zeros elsewhere. A name is kept when it
is well-formed and ends at a zero; what stood after that is not. -/
structure Layout.Keeps (l : Layout) (record packed : Bytes) : Prop where
  size : packed.length = l.size
  numbers : ∀ s ∈ l.numbers, ∀ i, s.Covers i → packed[i]? = record[i]?
  names : ∀ s ∈ l.names, Terminated (s.of record) → s.of packed =
    beforeZero (s.of record) ++ zeros (s.width - (beforeZero (s.of record)).length)
  padding : ∀ i < l.size, (∀ s ∈ l.slots, ¬ s.Covers i) → packed[i]? = some 0
  kernel : ∀ i < l.size, l.size ≤ i + l.kernel → packed[i]? = some 0

namespace Extension

variable {family : Family} {ext : Extension} {record : Bytes}

private theorem pack_numbers (owned : family.Owns ext) (reads : ext.Reads record) {s : Slot}
    (member : s ∈ (family.layout ext.revision).numbers) {i : Nat} (covers : s.Covers i) :
    ext.pack[i]? = record[i]? := by
  rw [← slots_numbers owned] at member
  obtain ⟨w, known, rfl⟩ := List.mem_map.mp member
  have written : ext.pack[i]? = w.bytes[i - w.offset]? :=
    getElem?_pack owned (List.mem_append_left _ known) covers
  exact written.trans (getElem?_of_holds (reads.numbers w known) covers).symm

private theorem pack_names (owned : family.Owns ext) (reads : ext.Reads record) {s : Slot}
    (member : s ∈ (family.layout ext.revision).names) (ended : Terminated (s.of record)) :
    s.of ext.pack =
      beforeZero (s.of record) ++ zeros (s.width - (beforeZero (s.of record)).length) := by
  rw [← slots_names owned] at member
  obtain ⟨n, known, rfl⟩ := List.mem_map.mp member
  obtain ⟨fits, read⟩ := reads.names n known
  have kept := (nameSlot_of_terminated ended).2.2
  rw [length_of_slot fits, ← read] at kept
  exact (of_pack_name owned known).trans kept

theorem keeps_pack (owned : family.Owns ext) (reads : ext.Reads record) :
    (family.layout ext.revision).Keeps record ext.pack where
  size := (length_pack owned).trans (size_eq owned).1
  numbers _ member _ covers := pack_numbers owned reads member covers
  names _ member ended := pack_names owned reads member ended
  padding i inside outside := pack_padding owned ((size_eq owned).1 ▸ inside) outside
  kernel i inside last := by
    refine pack_padding owned ((size_eq owned).1 ▸ inside) fun s member covers => ?_
    have within := (family.sound_layout ext.revision).within s member
    have below := covers.2
    omega

/-- Where all names of a record end in their slots, packing it loses nothing of it. -/
theorem fits_of_terminated (owned : family.Owns ext) (reads : ext.Reads record)
    (ended : ∀ s ∈ (family.layout ext.revision).names, Terminated (s.of record)) : ext.Fits := by
  refine reads.fits fun n known => ?_
  obtain ⟨fits, read⟩ := reads.names n known
  have slot : n.1 ∈ (family.layout ext.revision).names := by
    rw [← slots_names owned]
    exact List.mem_map_of_mem known
  obtain ⟨short, plain, -⟩ := nameSlot_of_terminated (ended n.1 slot)
  rw [length_of_slot fits] at short
  rw [read]
  exact ⟨short, plain⟩

end Extension

namespace Registry

private theorem kernel_layout : ∀ r ∈ all,
    (r.family.layout r.revision).kernel = if r.realName = "CT" then 8 else 0 := by
  decide

private theorem name_create : ∀ r ∈ all, r.create.name = r.realName := by
  decide

end Registry

namespace Registration

def layout (r : Registration) : Layout := r.family.layout r.revision

private theorem sizes_create {r : Registration} (registered : r ∈ Registry.all) :
    r.create.size = r.layout.size ∧
      r.create.userspaceSize + (if r.realName = "CT" then 8 else 0) = r.layout.size := by
  obtain ⟨full, short⟩ := Extension.size_eq (Extension.owns_create r.family r.revision)
  rw [Extension.Family.layout_create] at full short
  rw [Registry.kernel_layout r registered] at short
  exact ⟨full, short.trans full⟩

private theorem admits_iff {r : Registration} (registered : r ∈ Registry.all) (n : Nat) :
    (n = r.create.size ∨ n = r.create.userspaceSize) ↔
      n = r.layout.size ∨ r.realName = "CT" ∧ n + 8 = r.layout.size := by
  obtain ⟨full, short⟩ := sizes_create registered
  by_cases tracking : r.realName = "CT"
  · simp only [tracking, if_true, true_and] at short ⊢
    omega
  · simp only [tracking, if_false, false_and, or_false] at short ⊢
    omega

theorem unpack_refused {r : Registration} (registered : r ∈ Registry.all) {record : Bytes}
    (other : ¬ (record.length = r.create.size ∨ record.length = r.create.userspaceSize)) :
    r.unpack record =
      .error (.recordSize r.realName r.revision r.layout.size record.length) := by
  obtain ⟨full, short⟩ := not_or.mp other
  have refused := Extension.Family.unpack_error full short
  have named : (r.family.create r.revision).name = r.realName :=
    Registry.name_create r registered
  have sized : (r.family.create r.revision).size = r.layout.size := (sizes_create registered).1
  rwa [named, sized] at refused

/-- The bytes that are read are those of the record's size, for the records with a pointer of the
kernel also those before it. What is read and packed again keeps all live bytes and, where the
names end in their slots, is read once more as the same. -/
theorem unpack_keeps {r : Registration} (registered : r ∈ Registry.all) (record : Bytes) :
    ((∃ ext, r.unpack record = .ok ext) ↔ record.length = r.layout.size ∨
      r.realName = "CT" ∧ record.length + 8 = r.layout.size) ∧
    ((¬ ∃ ext, r.unpack record = .ok ext) → r.unpack record =
      .error (.recordSize r.realName r.revision r.layout.size record.length)) ∧
    ∀ ext, r.unpack record = .ok ext →
      ext.size = r.layout.size ∧ r.layout.Keeps record ext.pack ∧
        ((∀ s ∈ r.layout.names, Terminated (s.of record)) → r.unpack ext.pack = .ok ext) := by
  have accepted : (record.length = r.create.size ∨ record.length = r.create.userspaceSize) →
      ∃ ext, r.unpack record = .ok ext := Extension.Family.exists_unpack
  refine ⟨⟨?_, ?_⟩, ?_, ?_⟩
  · rintro ⟨ext, ok⟩
    rw [← admits_iff registered]
    by_contra other
    rw [unpack_refused registered other] at ok
    cases ok
  · exact fun sized => accepted ((admits_iff registered _).mpr sized)
  · exact fun none => unpack_refused registered fun sized => none (accepted sized)
  · intro ext ok
    have owned := Extension.Family.owns_of_unpack ok
    have reads := Extension.Family.reads_of_unpack ok
    have revision : ext.revision = r.revision :=
      (Extension.Family.revision_of_unpack ok).trans (Registry.revision_create r registered)
    have size := (Extension.size_eq owned).1
    have keeps := Extension.keeps_pack owned reads
    rw [revision] at size keeps
    refine ⟨size, keeps, fun ended => ?_⟩
    have fits := Extension.fits_of_terminated owned reads (by rwa [revision])
    have again := unpack_pack (r := r) ⟨owned, revision, fits⟩
    rwa [reads.recorded] at again

/-- A record without the kernel's pointer, with bytes after the ends of its two names. -/
theorem unpack_keeps_names :
    let r : Registration := ⟨"CT", "CT", .target, 1, .connTrack⟩
    let record : Bytes := List.replicate 12 7 ++
      ([0x66, 0x74, 0x70, 0] ++ List.replicate 12 0xff) ++
      ([0xc3, 0xa9, 0] ++ List.replicate 29 1) ++ List.replicate 4 9
    r ∈ Registry.all ∧ ∃ ext, r.unpack record = .ok ext ∧
      ext.pack = List.replicate 12 7 ++ ([0x66, 0x74, 0x70] ++ zeros 13) ++
        ([0xc3, 0xa9] ++ zeros 30) ++ zeros 12 ∧
      r.layout.Keeps record ext.pack ∧ r.unpack ext.pack = .ok ext := by
  intro r record
  have registered : r ∈ Registry.all := by decide
  obtain ⟨ext, ok, packed⟩ : ∃ ext, r.unpack record = .ok ext ∧
      ext.pack = List.replicate 12 7 ++ ([0x66, 0x74, 0x70] ++ zeros 13) ++
        ([0xc3, 0xa9] ++ zeros 30) ++ zeros 12 :=
    ⟨_, by with_unfolding_all rfl, by decide +kernel⟩
  have helper : Terminated ((Slot.mk 12 16).of record) :=
    ⟨by decide, ['f', 't', 'p'], by decide⟩
  have timeout : Terminated ((Slot.mk 28 32).of record) := ⟨by decide, ['é'], by decide⟩
  have ended : ∀ s ∈ r.layout.names, Terminated (s.of record) := by
    intro s member
    have either : s = ⟨12, 16⟩ ∨ s = ⟨28, 32⟩ := by
      simpa [layout, r, Extension.Family.layout] using member
    rcases either with rfl | rfl
    · exact helper
    · exact timeout
  obtain ⟨-, keeps, again⟩ := (unpack_keeps registered record).2.2 ext ok
  exact ⟨registered, ext, ok, packed, keeps, again ended⟩

end Registration

end FilterRecord
