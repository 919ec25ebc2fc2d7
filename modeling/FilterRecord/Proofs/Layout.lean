/- Proofs/Layout
   digest: The slots of every layout, and what a packed record has in each. -/

import FilterRecord.Proofs.Decoding
import FilterRecord.Proofs.Record.Writes

set_option autoImplicit false
set_option relaxedAutoImplicit false

namespace FilterRecord

open Text FilterRecord.Field

/-- Where the records of a layout keep their fields. All bytes outside of these are padding. -/
structure Layout where
  size : Nat
  /-- The bytes at the end, which only the kernel writes. -/
  kernel : Nat
  numbers : List Slot
  names : List Slot
deriving DecidableEq, Repr

namespace Layout

def slots (l : Layout) : List Slot := l.numbers ++ l.names

/-- The fields share no byte and lie in the part that userspace owns. -/
structure Sound (l : Layout) : Prop where
  apart : l.slots.Pairwise Slot.Apart
  within : ∀ s ∈ l.slots, s.offset + s.width + l.kernel ≤ l.size
  aligned : 8 ∣ l.size

instance (l : Layout) : Decidable l.Sound :=
  decidable_of_iff (l.slots.Pairwise Slot.Apart ∧
    (∀ s ∈ l.slots, s.offset + s.width + l.kernel ≤ l.size) ∧ 8 ∣ l.size)
    ⟨fun ⟨apart, within, aligned⟩ => ⟨apart, within, aligned⟩,
      fun ⟨apart, within, aligned⟩ => ⟨apart, within, aligned⟩⟩

end Layout

namespace Extension

def Family.layout (family : Family) (revision : UInt8) : Layout :=
  match family with
  | .mark =>
    if revision = 0 then ⟨8, 0, [⟨0, 8⟩], []⟩
    else if revision = 1 then ⟨16, 0, [⟨0, 8⟩, ⟨8, 1⟩], []⟩
    else ⟨8, 0, [⟨0, 4⟩, ⟨4, 4⟩], []⟩
  | .classify =>
    if revision = 0 then ⟨8, 0, [⟨0, 4⟩], []⟩ else ⟨8, 0, [⟨0, 4⟩, ⟨4, 4⟩], []⟩
  | .ipMark => ⟨16, 0, [⟨0, 4⟩, ⟨4, 4⟩, ⟨8, 1⟩, ⟨9, 1⟩], []⟩
  | .connTrack | .noTrack =>
    if revision = 0 then ⟨40, 8, [⟨0, 2⟩, ⟨2, 2⟩, ⟨4, 4⟩, ⟨8, 4⟩], [⟨12, 16⟩]⟩
    else ⟨72, 8, [⟨0, 2⟩, ⟨2, 2⟩, ⟨4, 4⟩, ⟨8, 4⟩], [⟨12, 16⟩, ⟨28, 32⟩]⟩
  | .socket =>
    if revision = 0 then ⟨0, 0, [], []⟩
    else if revision ≤ 3 then ⟨8, 0, [⟨0, 1⟩, ⟨1, 1⟩], []⟩
    else ⟨24, 0, [⟨0, 1⟩, ⟨1, 1⟩, ⟨4, 4⟩, ⟨8, 4⟩, ⟨12, 4⟩, ⟨16, 4⟩, ⟨20, 4⟩], []⟩
  | .reversePath =>
    if revision = 0 then ⟨8, 0, [⟨0, 1⟩], []⟩
    else ⟨16, 0, [⟨0, 1⟩, ⟨1, 1⟩, ⟨4, 4⟩, ⟨8, 4⟩], []⟩

theorem Family.sound_layout (family : Family) (revision : UInt8) :
    (family.layout revision).Sound := by
  cases family with
  | ipMark =>
    rw [layout]
    decide
  | mark | classify | connTrack | noTrack | socket | reversePath =>
    simp only [layout]
    split_ifs <;> decide

def numbers : Extension → List Write
  | mark (.plain value) => [⟨0, word64 value⟩]
  | mark (.moded value mode) => [⟨0, word64 value⟩, ⟨8, [mode]⟩]
  | mark (.masked word) => [⟨0, word32 word.value⟩, ⟨4, word32 word.mask⟩]
  | classify (.plain priority) => [⟨0, word32 priority⟩]
  | classify (.masked word) => [⟨0, word32 word.value⟩, ⟨4, word32 word.mask⟩]
  | ipMark (.address andMask orMask selector shift) =>
    [⟨0, word32 andMask⟩, ⟨4, word32 orMask⟩, ⟨8, [selector]⟩, ⟨9, [shift]⟩]
  | ipMark (.masked word flags shift) =>
    [⟨0, word32 word.value⟩, ⟨4, word32 word.mask⟩, ⟨8, [flags]⟩, ⟨9, [shift]⟩]
  | connTrack t =>
    [⟨0, word16 t.flags⟩, ⟨2, word16 t.zone⟩, ⟨4, word32 t.events⟩, ⟨8, word32 t.expectations⟩]
  | socket m =>
    if m.revision = 0 then []
    else if m.revision ≤ 3 then [⟨0, [m.flags]⟩, ⟨1, [m.inverted]⟩]
    else [⟨0, [m.flags]⟩, ⟨1, [m.inverted]⟩, ⟨4, word32 m.states⟩, ⟨8, word32 m.users.first⟩,
      ⟨12, word32 m.users.last⟩, ⟨16, word32 m.groups.first⟩, ⟨20, word32 m.groups.last⟩]
  | reversePath m =>
    if m.revision = 0 then [⟨0, [m.flags]⟩]
    else [⟨0, [m.flags]⟩, ⟨1, [m.prefixLength]⟩, ⟨4, word32 m.group.value⟩,
      ⟨8, word32 m.group.mask⟩]

def names : Extension → List (Slot × String)
  | connTrack t =>
    if t.revision = 0 then [(⟨12, 16⟩, t.helper)]
    else [(⟨12, 16⟩, t.helper), (⟨28, 32⟩, t.timeout)]
  | _ => []

def writes (ext : Extension) : List Write :=
  ext.numbers ++ ext.names.map fun n => ⟨n.1.offset, nameSlot n.1.width n.2⟩

theorem slots_numbers {family : Family} {ext : Extension} (owned : family.Owns ext) :
    ext.numbers.map Write.slot = (family.layout ext.revision).numbers := by
  cases owned with
  | mark m => cases m <;> simp [numbers, Write.slot, Family.layout, revision, Mark.revision]
  | classify c =>
    cases c <;> simp [numbers, Write.slot, Family.layout, revision, Classify.revision]
  | ipMark m => cases m <;> simp [numbers, Write.slot, Family.layout]
  | connTrack t | noTrack t =>
    by_cases first : t.revision = 0 <;>
      simp [numbers, Write.slot, Family.layout, revision, first]
  | socket m =>
    by_cases bare : m.revision = 0
    · simp [numbers, Family.layout, revision, bare]
    · by_cases early : m.revision ≤ 3 <;>
        simp [numbers, Write.slot, Family.layout, revision, bare, early]
  | reversePath m =>
    by_cases first : m.revision = 0 <;>
      simp [numbers, Write.slot, Family.layout, revision, first]

theorem slots_names {family : Family} {ext : Extension} (owned : family.Owns ext) :
    ext.names.map Prod.fst = (family.layout ext.revision).names := by
  cases owned with
  | mark m | classify m | socket m | reversePath m =>
    simp only [names, Family.layout]
    split_ifs <;> rfl
  | ipMark m => rfl
  | connTrack t | noTrack t =>
    by_cases first : t.revision = 0 <;> simp [names, Family.layout, revision, first]

private theorem slot_name (n : Slot × String) :
    (Write.mk n.1.offset (nameSlot n.1.width n.2)).slot = n.1 := by
  rw [Write.slot, length_nameSlot]

private theorem slots_writes {family : Family} {ext : Extension} (owned : family.Owns ext) :
    ext.writes.map Write.slot = (family.layout ext.revision).slots := by
  have names : (ext.names.map fun n => Write.mk n.1.offset (nameSlot n.1.width n.2)).map
      Write.slot = ext.names.map Prod.fst := by
    rw [List.map_map]
    exact List.map_congr_left fun n _ => slot_name n
  rw [writes, List.map_append, slots_numbers owned, names, slots_names owned, Layout.slots]

theorem size_eq {family : Family} {ext : Extension} (owned : family.Owns ext) :
    ext.size = (family.layout ext.revision).size ∧
      ext.userspaceSize + (family.layout ext.revision).kernel = ext.size := by
  cases owned with
  | mark m =>
    cases m <;>
      simp [size, userspaceSize, Mark.size, align, Family.layout, revision, Mark.revision]
  | classify c =>
    cases c <;>
      simp [size, userspaceSize, Classify.size, align, Family.layout, revision, Classify.revision]
  | ipMark m => exact ⟨rfl, rfl⟩
  | connTrack t | noTrack t =>
    by_cases first : t.revision = 0 <;>
      simp [size, userspaceSize, ConnTrack.size, ConnTrack.userspaceSize, ConnTrack.helperWidth,
        ConnTrack.timeoutWidth, align, Family.layout, revision, first]
  | socket m =>
    by_cases bare : m.revision = 0
    · simp [size, userspaceSize, SocketMatch.size, align, Family.layout, revision, bare]
    · by_cases early : m.revision ≤ 3 <;>
        simp [size, userspaceSize, SocketMatch.size, align, Family.layout, revision, bare, early]
  | reversePath m =>
    by_cases first : m.revision = 0 <;>
      simp [size, userspaceSize, ReversePath.size, align, Family.layout, revision, first]

theorem Family.layout_create (family : Family) (revision : UInt8) :
    family.layout (family.create revision).revision = family.layout revision := by
  cases family with
  | mark =>
    by_cases zero : revision = 0
    · rw [zero]
      rfl
    · by_cases one : revision = 1
      · rw [one]
        rfl
      · have masked : Mark.create revision = .masked .zero := by
          unfold Mark.create
          split
          · contradiction
          · contradiction
          · rfl
        simp [create, Extension.revision, masked, Mark.revision, layout, zero, one]
  | classify =>
    by_cases zero : revision = 0
    · rw [zero]
      rfl
    · have masked : Classify.create revision = .masked .zero := by
        unfold Classify.create
        split
        · contradiction
        · rfl
      simp [create, Extension.revision, masked, Classify.revision, layout, zero]
  | ipMark | connTrack | noTrack | socket | reversePath => rfl

private theorem ascending_writes (ext : Extension) : Ascending ext.size 0 ext.writes := by
  cases ext with
  | mark m => cases m <;> simp [Ascending, writes, numbers, names, size, Mark.size, align]
  | classify c => cases c <;> simp [Ascending, writes, numbers, names, size, Classify.size, align]
  | ipMark m => cases m <;> simp [Ascending, writes, numbers, names, size, IpMark.size, align]
  | connTrack t =>
    by_cases first : t.revision = 0 <;>
      simp [Ascending, writes, numbers, names, size, ConnTrack.size, ConnTrack.userspaceSize,
        ConnTrack.helperWidth, ConnTrack.timeoutWidth, align, first]
  | socket m =>
    by_cases bare : m.revision = 0
    · simp [Ascending, writes, numbers, names, bare]
    · by_cases early : m.revision ≤ 3 <;>
        simp [Ascending, writes, numbers, names, size, SocketMatch.size, align, bare, early]
  | reversePath m =>
    by_cases first : m.revision = 0 <;>
      simp [Ascending, writes, numbers, names, size, ReversePath.size, align, first]

private theorem pack_eq_laid (ext : Extension) : ext.pack = laid ext.size 0 ext.writes := by
  cases ext with
  | mark m =>
    cases m <;>
      simp [pack, Mark.pack, MaskedWord.pack, laid, writes, numbers, names, size, Mark.size, align]
  | classify c =>
    cases c <;>
      simp [pack, Classify.pack, MaskedWord.pack, laid, writes, numbers, names, size,
        Classify.size, align]
  | ipMark m =>
    cases m <;>
      simp [pack, IpMark.pack, MaskedWord.pack, laid, writes, numbers, names, size, IpMark.size,
        align]
  | connTrack t =>
    by_cases first : t.revision = 0
    · simp [pack, ConnTrack.pack, laid, writes, numbers, names, size, ConnTrack.size,
        ConnTrack.userspaceSize, ConnTrack.helperWidth, align, first]
    · simp [pack, ConnTrack.pack, laid, writes, numbers, names, size, ConnTrack.size,
        ConnTrack.userspaceSize, ConnTrack.helperWidth, ConnTrack.timeoutWidth, align, first,
        one_le_of_ne_zero first]
  | socket m =>
    by_cases bare : m.revision = 0
    · simp [pack, SocketMatch.pack, laid, writes, numbers, names, size, SocketMatch.size, align,
        bare]
    · by_cases early : m.revision ≤ 3 <;>
        simp [pack, SocketMatch.pack, laid, writes, numbers, names, size, SocketMatch.size, align,
          bare, early]
  | reversePath m =>
    by_cases first : m.revision = 0 <;>
      simp [pack, ReversePath.pack, MaskedWord.pack, laid, writes, numbers, names, size,
        ReversePath.size, align, first]

/-- The bytes of a record are zero but for what is written in its slots. -/
theorem pack_eq_puts (ext : Extension) : ext.pack = puts ext.writes (zeros ext.size) :=
  ext.pack_eq_laid.trans (puts_zeros ext.ascending_writes).symm

variable {family : Family} {ext : Extension}

theorem fits_writes (owned : family.Owns ext) {w : Write} (member : w ∈ ext.writes) :
    w.offset + w.bytes.length + (family.layout ext.revision).kernel ≤ ext.size := by
  have slot : w.slot ∈ (family.layout ext.revision).slots := by
    rw [← slots_writes owned]
    exact List.mem_map_of_mem member
  have within := (family.sound_layout ext.revision).within w.slot slot
  rwa [← (size_eq owned).1] at within

private theorem fits_zeros (owned : family.Owns ext) :
    ∀ w ∈ ext.writes, w.offset + w.bytes.length ≤ (zeros ext.size).length := by
  intro w member
  have fits := fits_writes owned member
  rw [length_zeros]
  omega

theorem apart_writes (owned : family.Owns ext) :
    ext.writes.Pairwise fun v w => v.slot.Apart w.slot := by
  have apart := (family.sound_layout ext.revision).apart
  rwa [← slots_writes owned, List.pairwise_map] at apart

theorem length_pack (owned : family.Owns ext) : ext.pack.length = ext.size := by
  rw [pack_eq_puts, length_puts (fits_zeros owned), length_zeros]

theorem getElem?_pack (owned : family.Owns ext) {w : Write} (member : w ∈ ext.writes) {i : Nat}
    (covers : w.slot.Covers i) : ext.pack[i]? = w.bytes[i - w.offset]? := by
  rw [pack_eq_puts]
  exact getElem?_puts_inside (fits_zeros owned) (apart_writes owned) member covers

theorem of_pack (owned : family.Owns ext) {w : Write} (member : w ∈ ext.writes) :
    w.slot.of ext.pack = w.bytes := by
  rw [pack_eq_puts]
  exact of_puts (fits_zeros owned) (apart_writes owned) member

theorem holds_pack (owned : family.Owns ext) {w : Write} (member : w ∈ ext.writes) :
    Holds w.offset w.bytes ext.pack := by
  have fits := fits_writes owned member
  have length := length_pack owned
  exact range?_eq_some_iff.mpr ⟨by omega, of_pack owned member⟩

theorem of_pack_name (owned : family.Owns ext) {n : Slot × String} (member : n ∈ ext.names) :
    n.1.of ext.pack = nameSlot n.1.width n.2 := by
  have written := of_pack owned (w := ⟨n.1.offset, nameSlot n.1.width n.2⟩)
    (List.mem_append_right _ (List.mem_map_of_mem member))
  rwa [slot_name] at written

theorem getName_pack (owned : family.Owns ext) {n : Slot × String} (member : n ∈ ext.names) :
    getName n.1.offset n.1.width ext.pack = .ok (nameOf (nameSlot n.1.width n.2)) := by
  have held := holds_pack owned (w := ⟨n.1.offset, nameSlot n.1.width n.2⟩)
    (List.mem_append_right _ (List.mem_map_of_mem member))
  unfold Holds at held
  rw [length_nameSlot] at held
  rw [getName, held]

theorem pack_padding (owned : family.Owns ext) {i : Nat} (inside : i < ext.size)
    (outside : ∀ s ∈ (family.layout ext.revision).slots, ¬ s.Covers i) :
    ext.pack[i]? = some 0 := by
  have missed : ∀ w ∈ ext.writes, ¬ w.slot.Covers i := by
    intro w member
    refine outside w.slot ?_
    rw [← slots_writes owned]
    exact List.mem_map_of_mem member
  rw [pack_eq_puts, getElem?_puts_outside (fits_zeros owned) missed]
  exact List.getElem?_replicate_of_lt inside

end Extension

end FilterRecord
