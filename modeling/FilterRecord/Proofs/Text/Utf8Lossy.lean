/- Proofs/Text/Utf8Lossy
   digest: What is read from a text that is cut between or within characters. -/

import FilterRecord.Proofs.Text.Utf8

set_option autoImplicit false
set_option relaxedAutoImplicit false

namespace FilterRecord.Text.Utf8

def replacement : Char := '\ufffd'

theorem encode_cons (c : Char) (cs : List Char) :
    encode (c :: cs) = String.utf8EncodeChar c ++ encode cs := rfl

theorem encode_append (cs ds : List Char) : encode (cs ++ ds) = encode cs ++ encode ds :=
  List.flatMap_append

theorem length_encodeChar_pos (c : Char) : 0 < (String.utf8EncodeChar c).length := by
  rw [String.length_utf8EncodeChar]
  exact c.utf8Size_pos

theorem take_encodeChar_ne_nil {c : Char} {count : Nat} (some_bytes : 0 < count) :
    (String.utf8EncodeChar c).take count ≠ [] := by
  have positive := length_encodeChar_pos c
  rw [ne_eq, ← List.length_eq_zero_iff, List.length_take]
  omega

/-- Where a cut after some bytes of a text falls: the characters before it, and the bytes of the
next one that stay. -/
inductive Cut (cs : List Char) (count : Nat) : List Char → List UInt8 → Prop
  | whole : (encode cs).length ≤ count → Cut cs count cs []
  | between {before after : List Char} {c : Char} : cs = before ++ c :: after →
    (encode before).length = count → Cut cs count before []
  | inside {before after : List Char} {c : Char} {kept : Nat} : cs = before ++ c :: after →
    0 < kept → kept < (String.utf8EncodeChar c).length → (encode before).length + kept = count →
    Cut cs count before ((String.utf8EncodeChar c).take kept)

theorem exists_cut (cs : List Char) (count : Nat) : ∃ before tail, Cut cs count before tail := by
  induction cs generalizing count with
  | nil => exact ⟨[], [], .whole (Nat.zero_le count)⟩
  | cons c cs ih =>
    by_cases within : count < (String.utf8EncodeChar c).length
    · have first : c :: cs = [] ++ c :: cs := rfl
      by_cases none_kept : count = 0
      · exact ⟨[], [], .between first none_kept.symm⟩
      · exact ⟨[], _, .inside first (Nat.pos_of_ne_zero none_kept) within (Nat.zero_add count)⟩
    · obtain ⟨before, tail, cut⟩ := ih (count - (String.utf8EncodeChar c).length)
      refine ⟨c :: before, tail, ?_⟩
      cases cut with
      | whole fits =>
        refine .whole ?_
        rw [encode_cons, List.length_append]
        omega
      | between split length =>
        refine .between (congrArg (c :: ·) split) ?_
        rw [encode_cons, List.length_append]
        omega
      | inside split some_kept cut length =>
        refine .inside (congrArg (c :: ·) split) some_kept cut ?_
        rw [encode_cons, List.length_append]
        omega

variable {cs before : List Char} {tail : List UInt8} {count : Nat}

theorem take_of_cut (cut : Cut cs count before tail) :
    (encode cs).take count = encode before ++ tail := by
  cases cut with
  | whole fits => rw [List.take_of_length_le fits, List.append_nil]
  | between split length =>
    rw [split, encode_append, ← length, List.take_left, List.append_nil]
  | inside split some_kept cut length =>
    rw [split, encode_append, ← length, List.take_length_add_append, encode_cons,
      List.take_append_of_le_length (Nat.le_of_lt cut)]

theorem pieces_encode_append (cs : List Char) (rest : List UInt8) :
    pieces (encode cs ++ rest) = cs.map some ++ pieces rest := by
  induction cs with
  | nil => rfl
  | cons c cs ih =>
    rw [encode_cons, List.append_assoc, pieces_encodeChar, ih]
    rfl

theorem decodeLossy_encode_append (cs : List Char) (rest : List UInt8) :
    decodeLossy (encode cs ++ rest) = cs ++ decodeLossy rest := by
  simp [decodeLossy, pieces_encode_append, Function.comp_def]

theorem decodeLossy_take_encodeChar {c : Char} (some_bytes : 0 < count)
    (cut : count < (String.utf8EncodeChar c).length) :
    decodeLossy ((String.utf8EncodeChar c).take count) = [replacement] := by
  rw [decodeLossy, pieces_take_encodeChar some_bytes cut]
  rfl

/-- A text that is cut within a character reads as if that were a replacement. -/
theorem decodeLossy_of_cut (cut : Cut cs count before tail) :
    decodeLossy (encode before ++ tail) = before ++ if tail = [] then [] else [replacement] := by
  rw [decodeLossy_encode_append]
  congr 1
  cases cut with
  | whole | between => simp [decodeLossy, pieces]
  | inside _ some_kept cut _ =>
    rw [decodeLossy_take_encodeChar some_kept cut, if_neg (take_encodeChar_ne_nil some_kept)]

/-! A text without a zero byte has no character of code zero. -/

private theorem lead?_ranges {b : UInt8} {l : Lead} (nonzero : b ≠ 0) (lead : lead? b = some l) :
    l.tails = 0 ∧ 0 < l.bits ∧ l.bits < 0x80 ∨
    l.tails = 1 ∧ 2 ≤ l.bits ∧ l.bits < 0x20 ∨
    (0x80 ≤ l.low.toNat ∧ l.high.toNat ≤ 0xbf) ∧
      (l.tails = 2 ∧ l.bits < 0x10 ∧ (l.bits = 0 → 0xa0 ≤ l.low.toNat) ∧
        (l.bits = 0xd → l.high.toNat ≤ 0x9f) ∨
      l.tails = 3 ∧ l.bits ≤ 4 ∧ (l.bits = 0 → 0x90 ≤ l.low.toNat) ∧
        (l.bits = 4 → l.high.toNat ≤ 0x8f)) := by
  have positive : b.toNat ≠ 0 := fun zero => nonzero (UInt8.toNat_inj.mp zero)
  simp only [lead?, UInt8.le_iff_toNat_le, Bool.and_eq_true, decide_eq_true_eq, beq_iff_eq,
    ← UInt8.toNat_inj, UInt8.reduceToNat] at lead
  split_ifs at lead <;> cases lead <;> simp <;> omega

private theorem tailRun_head {low high x : UInt8} {n : Nat} {bs run : List UInt8}
    (taken : tailRun low high n bs = x :: run) : low.toNat ≤ x.toNat ∧ x.toNat ≤ high.toNat := by
  unfold tailRun at taken
  split at taken
  · split at taken
    · rename_i inside
      cases taken
      simpa [UInt8.le_iff_toNat_le] using inside
    · cases taken
  · cases taken

private theorem scalar_valid {b : UInt8} {bs : List UInt8} {l : Lead} (nonzero : b ≠ 0)
    (lead : lead? b = some l) (full : (tailRun l.low l.high l.tails bs).length = l.tails) :
    scalar l.bits (tailRun l.low l.high l.tails bs) ≠ 0 ∧
      (scalar l.bits (tailRun l.low l.high l.tails bs)).isValidChar := by
  have ranges := lead?_ranges nonzero lead
  rcases taken : tailRun l.low l.high l.tails bs with _ | ⟨x, _ | ⟨y, _ | ⟨z, _ | ⟨w, run⟩⟩⟩⟩ <;>
    rw [taken] at full <;> simp only [List.length_cons, List.length_nil] at full
  · simp only [scalar, List.foldl_nil, Nat.isValidChar]
    omega
  · have head := tailRun_head taken
    simp only [scalar, List.foldl_cons, List.foldl_nil, Nat.isValidChar]
    omega
  · have head := tailRun_head taken
    simp only [scalar, List.foldl_cons, List.foldl_nil, Nat.isValidChar]
    omega
  · have head := tailRun_head taken
    simp only [scalar, List.foldl_cons, List.foldl_nil, Nat.isValidChar]
    omega
  · omega

private theorem toNat_ofNat {n : Nat} (valid : n.isValidChar) : (Char.ofNat n).toNat = n := by
  rw [Char.ofNat, dif_pos valid]
  rfl

private theorem piece_ne_nul {b : UInt8} (nonzero : b ≠ 0) (bs : List UInt8) :
    (piece b bs).1 ≠ some '\x00' := by
  intro read
  unfold piece at read
  split at read
  · cases read
  · rename_i l lead
    dsimp only at read
    split at read
    · rename_i full
      obtain ⟨positive, valid⟩ := scalar_valid nonzero lead full
      have code := congrArg Char.toNat (Option.some.inj read)
      rw [toNat_ofNat valid] at code
      exact positive code
    · cases read

theorem nul_not_mem_decodeLossy {bs : List UInt8} (solid : 0 ∉ bs) : '\x00' ∉ decodeLossy bs := by
  have pieces_solid : some '\x00' ∉ pieces bs := by
    fun_induction pieces bs with
    | case1 => exact List.not_mem_nil
    | case2 b bs p ih =>
      obtain ⟨first, rest⟩ := List.ne_and_not_mem_of_not_mem_cons solid
      have later := ih fun zero => rest (List.mem_of_mem_drop zero)
      exact List.not_mem_cons_of_ne_of_not_mem (piece_ne_nul first.symm bs).symm later
  intro nul
  obtain ⟨read, member, value⟩ := List.mem_map.mp nul
  cases read with
  | none => exact absurd value (by decide)
  | some c => exact pieces_solid (value ▸ member)

end FilterRecord.Text.Utf8
