/- Proofs/Record/NameSlot
   digest: Names that are read from their slots and written back into them. -/

import Mathlib.Data.List.TakeWhile
import FilterRecord.Proofs.Record.Field
import FilterRecord.Proofs.Text.Utf8Lossy

set_option autoImplicit false
set_option relaxedAutoImplicit false

namespace FilterRecord.Text.Utf8

theorem zero_mem_encode {cs : List Char} (member : '\x00' ∈ cs) : 0 ∈ encode cs := by
  have own : 0 ∈ String.utf8EncodeChar '\x00' := by decide
  exact List.mem_flatMap.mpr ⟨'\x00', member, own⟩

end FilterRecord.Text.Utf8

namespace FilterRecord.Field

open Text

variable {slot : Bytes}

def beforeZero (slot : Bytes) : Bytes := slot.takeWhile (· != 0)

theorem zero_not_mem_beforeZero : 0 ∉ beforeZero slot := by
  intro zero
  have solid := List.mem_takeWhile_imp zero
  simp at solid

theorem length_beforeZero_lt (ended : 0 ∈ slot) : (beforeZero slot).length < slot.length := by
  have split := List.takeWhile_append_dropWhile (p := (· != 0)) (l := slot)
  have whole := congrArg List.length split
  rw [List.length_append] at whole
  have rest : slot.dropWhile (· != 0) ≠ [] := by
    intro empty
    rw [empty, List.append_nil] at split
    exact zero_not_mem_beforeZero (split.symm ▸ ended)
  have positive := List.length_pos_iff.mpr rest
  rw [beforeZero]
  omega

/-- A slot whose name is well-formed and ends at a zero. -/
def Terminated (slot : Bytes) : Prop := 0 ∈ slot ∧ ∃ cs, beforeZero slot = Utf8.encode cs

theorem nameSlot_of_terminated (h : Terminated slot) :
    (Utf8.encode (nameOf slot).toList).length < slot.length ∧ '\x00' ∉ (nameOf slot).toList ∧
      nameSlot slot.length (nameOf slot) =
        beforeZero slot ++ zeros (slot.length - (beforeZero slot).length) := by
  obtain ⟨ended, cs, text⟩ := h
  have read : (nameOf slot).toList = cs := by
    rw [beforeZero] at text
    rw [nameOf, text, Utf8.decodeLossy_encode, String.toList_ofList]
  have short := length_beforeZero_lt ended
  rw [text] at short
  refine ⟨by rwa [read], ?_, ?_⟩
  · rw [read]
    intro zero
    exact zero_not_mem_beforeZero (text.symm ▸ Utf8.zero_mem_encode zero)
  · have kept : (Utf8.encode cs).take (slot.length - 1) = Utf8.encode cs :=
      List.take_of_length_le (by omega)
    rw [nameSlot, read, kept, text]

/-! A name of any length, cut to its slot and read from there. -/

variable {width : Nat} {name : String}

theorem plain_nameOf (slot : Bytes) : '\x00' ∉ (nameOf slot).toList := by
  rw [nameOf, String.toList_ofList]
  exact Utf8.nul_not_mem_decodeLossy zero_not_mem_beforeZero

def beforeNul (cs : List Char) : List Char := cs.takeWhile (· != '\x00')

theorem beforeNul_of_plain {cs : List Char} (plain : '\x00' ∉ cs) : beforeNul cs = cs := by
  rw [beforeNul, List.takeWhile_eq_self_iff]
  intro c member
  exact bne_iff_ne.mpr (ne_of_mem_of_not_mem member plain)

theorem beforeZero_append_zeros (bytes : Bytes) (count : Nat) :
    beforeZero (bytes ++ zeros count) = beforeZero bytes := by
  induction bytes with
  | nil => cases count <;> rfl
  | cons b bytes ih =>
    simp only [beforeZero] at ih
    simp only [beforeZero, List.cons_append, List.takeWhile_cons, ih]

/-- The zero that ends the bytes of a text ends its characters: no other character has one. -/
theorem beforeZero_encode (cs : List Char) :
    beforeZero (Utf8.encode cs) = Utf8.encode (beforeNul cs) := by
  induction cs with
  | nil => rfl
  | cons c cs ih =>
    by_cases nul : c = '\x00'
    · subst nul
      rfl
    · have goes_on : beforeNul (c :: cs) = c :: beforeNul cs :=
        List.takeWhile_cons_of_pos (bne_iff_ne.mpr nul)
      have solid : ∀ b ∈ String.utf8EncodeChar c, (b != 0) = true := by
        intro b member
        rw [bne_iff_ne]
        rintro rfl
        exact nul (Utf8.eq_nul_of_zero_mem member)
      rw [goes_on, Utf8.encode_cons, Utf8.encode_cons, beforeZero,
        List.takeWhile_append_of_pos solid]
      exact congrArg (String.utf8EncodeChar c ++ ·) ih

theorem beforeZero_nameSlot (width : Nat) (name : String) : beforeZero (nameSlot width name) =
    (Utf8.encode (beforeNul name.toList)).take (width - 1) := by
  rw [nameSlot, beforeZero_append_zeros, beforeZero, ← List.take_takeWhile, ← beforeZero,
    beforeZero_encode]

theorem beforeZero_nameSlot_of_plain (plain : '\x00' ∉ name.toList) :
    beforeZero (nameSlot width name) = (Utf8.encode name.toList).take (width - 1) := by
  rw [beforeZero_nameSlot, beforeNul_of_plain plain]

theorem nameSlot_inj {other : String} (plain : '\x00' ∉ name.toList)
    (plain_other : '\x00' ∉ other.toList) : nameSlot width name = nameSlot width other ↔
      (Utf8.encode name.toList).take (width - 1) = (Utf8.encode other.toList).take (width - 1) := by
  constructor
  · intro same
    rw [← beforeZero_nameSlot_of_plain plain, same, beforeZero_nameSlot_of_plain plain_other]
  · intro same
    rw [nameSlot, nameSlot, same]

/-- What is read from the slot of a name: the characters before its first of code zero and before
the cut, and a replacement where the cut falls within one. -/
theorem toList_nameOf_nameSlot {before : List Char} {tail : List UInt8}
    (cut : Utf8.Cut (beforeNul name.toList) (width - 1) before tail) :
    (nameOf (nameSlot width name)).toList =
      before ++ if tail = [] then [] else [Utf8.replacement] := by
  have text := beforeZero_nameSlot width name
  rw [beforeZero, Utf8.take_of_cut cut] at text
  rw [nameOf, String.toList_ofList, text, Utf8.decodeLossy_of_cut cut]

theorem toList_nameOf_nameSlot_of_plain {before : List Char} {tail : List UInt8}
    (plain : '\x00' ∉ name.toList) (cut : Utf8.Cut name.toList (width - 1) before tail) :
    (nameOf (nameSlot width name)).toList =
      before ++ if tail = [] then [] else [Utf8.replacement] :=
  toList_nameOf_nameSlot ((beforeNul_of_plain plain).symm ▸ cut)

/-- A name that its slot gives back: it leaves room for a zero, or the cut falls within its last
character and that is a replacement. -/
def Kept (width : Nat) (name : String) : Prop :=
  (Utf8.encode name.toList).length < width ∨ ∃ before,
    name.toList = before ++ [Utf8.replacement] ∧ (Utf8.encode before).length + 1 < width

/-- A name whose bytes in its slot are a text with at most a beginning of a replacement after it. -/
def Settled (width : Nat) (name : String) : Prop :=
  ∃ before tail, (Utf8.encode name.toList).take (width - 1) = Utf8.encode before ++ tail ∧
    tail <+: Utf8.encode [Utf8.replacement]

private theorem last_or_within {before after other : List Char} {c d : Char}
    (same : before ++ c :: after = other ++ [d]) :
    (before = other ∧ c = d ∧ after = []) ∨ ∃ rest, other = before ++ c :: rest := by
  rcases List.eq_nil_or_concat after with rfl | ⟨rest, e, rfl⟩
  · obtain ⟨equal, last⟩ := List.append_inj' same rfl
    exact .inl ⟨equal, (List.cons.inj last).1, rfl⟩
  · rw [List.concat_eq_append, ← List.cons_append, ← List.append_assoc] at same
    exact .inr ⟨rest, (List.append_inj_left' same rfl).symm⟩

theorem nameOf_nameSlot_eq_iff (room : 0 < width) (plain : '\x00' ∉ name.toList) :
    nameOf (nameSlot width name) = name ↔ Kept width name := by
  obtain ⟨before, tail, cut⟩ := Utf8.exists_cut name.toList (width - 1)
  have read := toList_nameOf_nameSlot_of_plain plain cut
  rw [← String.toList_inj, read]
  cases cut with
  | whole fits =>
    have short : (Utf8.encode name.toList).length < width := by omega
    simp [Kept, short]
  | @between _ after c split length =>
    have long := congrArg (List.length ∘ Utf8.encode) split
    have next := Utf8.length_encodeChar_pos c
    simp only [Function.comp_apply, Utf8.encode_append, Utf8.encode_cons, List.length_append]
      at long
    constructor
    · intro same
      rw [if_pos rfl, List.append_nil, split] at same
      simp at same
    · rintro (short | ⟨other, last, shorter⟩)
      · omega
      · rcases last_or_within (split.symm.trans last) with ⟨rfl, -⟩ | ⟨rest, rfl⟩
        · omega
        · rw [Utf8.encode_append, List.length_append] at shorter
          omega
  | @inside _ after c kept split some_kept cut length =>
    have long := congrArg (List.length ∘ Utf8.encode) split
    simp only [Function.comp_apply, Utf8.encode_append, Utf8.encode_cons, List.length_append]
      at long
    rw [if_neg (Utf8.take_encodeChar_ne_nil some_kept)]
    constructor
    · exact fun same => .inr ⟨before, same.symm, by omega⟩
    · rintro (short | ⟨other, last, shorter⟩)
      · omega
      · rcases last_or_within (split.symm.trans last) with ⟨rfl, -⟩ | ⟨rest, rfl⟩
        · exact last.symm
        · rw [Utf8.encode_append, Utf8.encode_cons, List.length_append, List.length_append]
            at shorter
          omega

/-- A name that is read from its slot has no more characters than were written there, and none only
if there were none. -/
theorem length_nameOf_nameSlot (room : 1 < width) (plain : '\x00' ∉ name.toList) :
    (nameOf (nameSlot width name)).length ≤ name.length ∧
      (nameOf (nameSlot width name) = "" ↔ name = "") := by
  obtain ⟨before, tail, cut⟩ := Utf8.exists_cut name.toList (width - 1)
  have read := toList_nameOf_nameSlot_of_plain plain cut
  simp only [← String.length_toList, ← String.toList_eq_nil_iff, read]
  cases cut with
  | whole fits => simp
  | between split length =>
    have nonempty : before ≠ [] := by
      rintro rfl
      simp only [Utf8.encode, List.flatMap_nil, List.length_nil] at length
      omega
    simp [split, nonempty]
  | inside split some_kept =>
    simp [split, Utf8.take_encodeChar_ne_nil some_kept]

private theorem length_of_broken {before : List Char} {tail : List UInt8}
    (kept : (Utf8.encode name.toList).take (width - 1) = Utf8.encode before ++ tail)
    (broken : none ∈ Utf8.pieces tail) : (Utf8.encode before ++ tail).length = width - 1 := by
  rw [← kept, List.length_take, Nat.min_eq_left]
  by_contra short
  rw [List.take_of_length_le (by omega)] at kept
  have pieces := congrArg Utf8.pieces kept
  rw [Utf8.pieces_encode, Utf8.pieces_encode_append] at pieces
  have member : none ∈ name.toList.map some := pieces ▸ List.mem_append_right _ broken
  simp at member

private theorem take_again {before : List Char} {tail : List UInt8}
    (kept : (Utf8.encode name.toList).take (width - 1) = Utf8.encode before ++ tail)
    (beginning : tail <+: Utf8.encode [Utf8.replacement]) :
    (Utf8.encode (Utf8.decodeLossy (Utf8.encode before ++ tail))).take (width - 1) =
      Utf8.encode before ++ tail := by
  have own : (Utf8.encode before ++ tail).take (width - 1) = Utf8.encode before ++ tail := by
    rw [← kept, List.take_take, Nat.min_self]
  by_cases whole : ∃ cs, tail = Utf8.encode cs
  · obtain ⟨cs, rfl⟩ := whole
    rw [← Utf8.encode_append, Utf8.decodeLossy_encode, Utf8.encode_append]
    exact own
  · have single : Utf8.encode [Utf8.replacement] = String.utf8EncodeChar Utf8.replacement := by
      simp [Utf8.encode]
    have some_bytes : 0 < tail.length := by
      refine List.length_pos_iff.mpr fun empty => whole ⟨[], ?_⟩
      exact empty
    have cut : tail.length < (String.utf8EncodeChar Utf8.replacement).length := by
      refine lt_of_le_of_ne (single ▸ beginning.length_le) fun full =>
        whole ⟨[Utf8.replacement], ?_⟩
      exact beginning.eq_of_length (full.trans (congrArg List.length single.symm))
    have taken : tail = (String.utf8EncodeChar Utf8.replacement).take tail.length :=
      single ▸ List.prefix_iff_eq_take.mp beginning
    have read := Utf8.decodeLossy_take_encodeChar some_bytes cut
    have broken := Utf8.pieces_take_encodeChar some_bytes cut
    rw [← taken] at read broken
    have full := length_of_broken kept (by simp [broken])
    rw [Utf8.decodeLossy_encode_append, read, Utf8.encode_append, single, ← full,
      List.length_append, List.take_length_add_append, ← taken]

theorem nameSlot_again_iff (plain : '\x00' ∉ name.toList) :
    nameSlot width (nameOf (nameSlot width name)) = nameSlot width name ↔ Settled width name := by
  rw [nameSlot_inj (plain_nameOf _) plain]
  constructor
  · intro same
    obtain ⟨before, tail, cut⟩ := Utf8.exists_cut name.toList (width - 1)
    have kept := Utf8.take_of_cut cut
    have read := toList_nameOf_nameSlot_of_plain plain cut
    cases cut with
    | whole | between => exact ⟨_, [], kept, List.nil_prefix⟩
    | inside split some_kept cut length =>
      rw [if_neg (Utf8.take_encodeChar_ne_nil some_kept)] at read
      rw [read, kept, Utf8.encode_append, ← length, List.take_length_add_append] at same
      refine ⟨before, _, kept, ?_⟩
      rw [← List.append_cancel_left same]
      exact List.take_prefix _ _
  · rintro ⟨before, tail, kept, beginning⟩
    have text : beforeZero (nameSlot width name) = _ := beforeZero_nameSlot_of_plain plain
    rw [beforeZero] at text
    rw [nameOf, String.toList_ofList, text, kept]
    exact take_again kept beginning

end FilterRecord.Field
