/- Proofs/Text/Utf8
   digest: The bytes of a text read back as the text, without a replacement. -/

import Mathlib.Tactic.Common
import FilterRecord.Text.Utf8

set_option autoImplicit false
set_option relaxedAutoImplicit false

namespace FilterRecord.Text.Utf8

private def Tail (b : UInt8) : Prop := 0x80 ≤ b.toNat ∧ b.toNat ≤ 0xbf

private theorem tail_ofNat (n : Nat) : Tail (UInt8.ofNat (n % 64 + 0x80)) := by
  simp only [Tail, UInt8.toNat_ofNat']
  omega

private theorem lead?_one {b : UInt8} (h : b.toNat ≤ 0x7f) :
    lead? b = some ⟨0, 0x80, 0xbf, b.toNat⟩ := by
  have small : b ≤ 0x7f := UInt8.le_iff_toNat_le.mpr h
  rw [lead?, if_pos small]

private theorem lead?_two {b : UInt8} (low : 0xc2 ≤ b.toNat) (high : b.toNat ≤ 0xdf) :
    lead? b = some ⟨1, 0x80, 0xbf, b.toNat - 0xc0⟩ := by
  have large : ¬ b ≤ 0x7f := by rw [UInt8.le_iff_toNat_le]; simp; omega
  have range : (0xc2 ≤ b && b ≤ 0xdf) = true := by
    simp only [Bool.and_eq_true, decide_eq_true_eq, UInt8.le_iff_toNat_le]
    exact ⟨low, high⟩
  rw [lead?, if_neg large, if_pos range]

private theorem lead?_three {b s : UInt8} (low : 0xe0 ≤ b.toNat) (high : b.toNat ≤ 0xef)
    (tail : Tail s) (long : b.toNat = 0xe0 → 0xa0 ≤ s.toNat)
    (scalar : b.toNat = 0xed → s.toNat ≤ 0x9f) :
    ∃ first last, lead? b = some ⟨2, first, last, b.toNat - 0xe0⟩ ∧
      first.toNat ≤ s.toNat ∧ s.toNat ≤ last.toNat := by
  obtain ⟨above, below⟩ := tail
  simp only [lead?, UInt8.le_iff_toNat_le, Bool.and_eq_true, decide_eq_true_eq, beq_iff_eq,
    ← UInt8.toNat_inj, UInt8.reduceToNat]
  rw [if_neg (by omega), if_neg (by omega)]
  by_cases overlong : b.toNat = 0xe0
  · exact ⟨0xa0, 0xbf, by simp [overlong], long overlong, below⟩
  · by_cases surrogate : b.toNat = 0xed
    · exact ⟨0x80, 0x9f, by simp [surrogate], above, scalar surrogate⟩
    · refine ⟨0x80, 0xbf, ?_, above, below⟩
      rw [if_neg overlong, if_neg surrogate, if_pos (by omega)]

private theorem lead?_four {b s : UInt8} (low : 0xf0 ≤ b.toNat) (high : b.toNat ≤ 0xf4)
    (tail : Tail s) (long : b.toNat = 0xf0 → 0x90 ≤ s.toNat)
    (scalar : b.toNat = 0xf4 → s.toNat ≤ 0x8f) :
    ∃ first last, lead? b = some ⟨3, first, last, b.toNat - 0xf0⟩ ∧
      first.toNat ≤ s.toNat ∧ s.toNat ≤ last.toNat := by
  obtain ⟨above, below⟩ := tail
  simp only [lead?, UInt8.le_iff_toNat_le, Bool.and_eq_true, decide_eq_true_eq, beq_iff_eq,
    ← UInt8.toNat_inj, UInt8.reduceToNat]
  rw [if_neg (by omega), if_neg (by omega), if_neg (by omega), if_neg (by omega),
    if_neg (by omega)]
  by_cases overlong : b.toNat = 0xf0
  · exact ⟨0x90, 0xbf, by simp [overlong], long overlong, below⟩
  · by_cases last : b.toNat = 0xf4
    · exact ⟨0x80, 0x8f, by simp [last], above, scalar last⟩
    · refine ⟨0x80, 0xbf, ?_, above, below⟩
      rw [if_neg overlong, if_pos (by omega)]

private theorem inside_iff {low high b : UInt8} :
    (low ≤ b && b ≤ high) = true ↔ low.toNat ≤ b.toNat ∧ b.toNat ≤ high.toNat := by
  simp only [Bool.and_eq_true, decide_eq_true_eq, UInt8.le_iff_toNat_le]

private theorem tailRun_tails {tails rest : List UInt8} {n : Nat} (all : ∀ b ∈ tails, Tail b)
    (stops : tails.length = n ∨ tails.length ≤ n ∧ rest = []) :
    tailRun 0x80 0xbf n (tails ++ rest) = tails := by
  induction tails generalizing n with
  | nil =>
    rcases stops with rfl | ⟨-, rfl⟩
    · cases rest <;> rfl
    · cases n <;> rfl
  | cons b tails ih =>
    obtain ⟨n, rfl⟩ : ∃ m, n = m + 1 := by
      simp only [List.length_cons] at stops
      exact ⟨n - 1, by omega⟩
    have inside : (0x80 ≤ b && b ≤ 0xbf) = true := inside_iff.mpr (all b (by simp))
    simp only [List.cons_append, tailRun, inside, if_true]
    rw [ih (fun d hd => all d (by simp [hd])) (by simpa using stops)]

private theorem tailRun_run {low high s : UInt8} {tails rest : List UInt8} {n : Nat}
    (above : low.toNat ≤ s.toNat) (below : s.toNat ≤ high.toNat) (all : ∀ b ∈ tails, Tail b)
    (stops : tails.length = n ∨ tails.length ≤ n ∧ rest = []) :
    tailRun low high (n + 1) (s :: tails ++ rest) = s :: tails := by
  have inside : (low ≤ s && s ≤ high) = true := inside_iff.mpr ⟨above, below⟩
  simp only [List.cons_append, tailRun, inside, if_true]
  rw [tailRun_tails all stops]

private theorem tailRun_end {low high s : UInt8} {tails : List UInt8} {n : Nat}
    (above : low.toNat ≤ s.toNat) (below : s.toNat ≤ high.toNat) (all : ∀ b ∈ tails, Tail b)
    (few : tails.length ≤ n) : tailRun low high (n + 1) (s :: tails) = s :: tails := by
  simpa using tailRun_run above below all (.inr ⟨few, rfl⟩)

private theorem pieces_of_run {b : UInt8} {run rest : List UInt8} {low high : UInt8} {bits : Nat}
    {c : Char} (lead : lead? b = some ⟨run.length, low, high, bits⟩)
    (taken : tailRun low high run.length (run ++ rest) = run)
    (value : scalar bits run = c.toNat) :
    pieces (b :: (run ++ rest)) = some c :: pieces rest := by
  rw [pieces]
  simp [piece, lead, taken, value]

private theorem pieces_of_short {b : UInt8} {run : List UInt8} {tails : Nat} {low high : UInt8}
    {bits : Nat} (lead : lead? b = some ⟨tails, low, high, bits⟩) (short : run.length < tails)
    (taken : tailRun low high tails run = run) : pieces (b :: run) = [none] := by
  have unequal : run.length ≠ tails := by omega
  rw [pieces]
  simp [piece, lead, taken, unequal, pieces]

theorem pieces_encodeChar (c : Char) (rest : List UInt8) :
    pieces (String.utf8EncodeChar c ++ rest) = some c :: pieces rest := by
  have valid : c.toNat < 0xd800 ∨ 0xdfff < c.toNat ∧ c.toNat < 0x110000 := c.valid
  have code : c.val.toNat = c.toNat := rfl
  simp only [String.utf8EncodeChar, code]
  split_ifs with one two three
  · have none_left : tailRun 0x80 0xbf ([] : List UInt8).length ([] ++ rest) = [] :=
      tailRun_tails (by simp) (.inl rfl)
    exact pieces_of_run (lead?_one (by simp; omega)) none_left
      (by simp [scalar]; omega)
  · have tails : ∀ b ∈ [UInt8.ofNat (c.toNat % 64 + 0x80)], Tail b := by
      simp only [List.forall_mem_cons, tail_ofNat, true_and]
      simp
    exact pieces_of_run (lead?_two (by simp; omega) (by simp; omega))
      (tailRun_tails tails (.inl rfl)) (by simp [scalar]; omega)
  · obtain ⟨low, high, lead, above, below⟩ :=
      lead?_three (b := UInt8.ofNat (c.toNat / 4096 % 16 + 0xe0))
        (by simp; omega) (by simp; omega) (tail_ofNat (c.toNat / 64)) (by simp; omega)
        (by simp; omega)
    have tails : ∀ b ∈ [UInt8.ofNat (c.toNat % 64 + 0x80)], Tail b := by
      simp only [List.forall_mem_cons, tail_ofNat, true_and]
      simp
    exact pieces_of_run lead (tailRun_run above below tails (.inl rfl)) (by simp [scalar]; omega)
  · obtain ⟨low, high, lead, above, below⟩ :=
      lead?_four (b := UInt8.ofNat (c.toNat / 262144 % 8 + 0xf0))
        (by simp; omega) (by simp; omega) (tail_ofNat (c.toNat / 4096)) (by simp; omega)
        (by simp; omega)
    have tails : ∀ b ∈ [UInt8.ofNat (c.toNat / 64 % 64 + 0x80),
        UInt8.ofNat (c.toNat % 64 + 0x80)], Tail b := by
      simp only [List.forall_mem_cons, tail_ofNat, true_and]
      simp
    exact pieces_of_run lead (tailRun_run above below tails (.inl rfl)) (by simp [scalar]; omega)

/-- A character whose last bytes are missing is one ill-formed piece. -/
theorem pieces_take_encodeChar {c : Char} {count : Nat} (some_bytes : 0 < count)
    (cut : count < (String.utf8EncodeChar c).length) :
    pieces ((String.utf8EncodeChar c).take count) = [none] := by
  have valid : c.toNat < 0xd800 ∨ 0xdfff < c.toNat ∧ c.toNat < 0x110000 := c.valid
  have code : c.val.toNat = c.toNat := rfl
  simp only [String.utf8EncodeChar, code] at cut ⊢
  split_ifs at cut ⊢ with one two three
  · simp only [List.length_singleton] at cut
    omega
  · obtain rfl : count = 1 := by simp only [List.length_cons, List.length_nil] at cut; omega
    exact pieces_of_short (lead?_two (by simp; omega) (by simp; omega)) (by simp) rfl
  · obtain ⟨low, high, lead, above, below⟩ :=
      lead?_three (b := UInt8.ofNat (c.toNat / 4096 % 16 + 0xe0))
        (by simp; omega) (by simp; omega) (tail_ofNat (c.toNat / 64)) (by simp; omega)
        (by simp; omega)
    have either : count = 1 ∨ count = 2 := by
      simp only [List.length_cons, List.length_nil] at cut
      omega
    rcases either with rfl | rfl
    · exact pieces_of_short lead (by simp) rfl
    · exact pieces_of_short lead (by simp) (tailRun_end above below (by simp) (by simp))
  · obtain ⟨low, high, lead, above, below⟩ :=
      lead?_four (b := UInt8.ofNat (c.toNat / 262144 % 8 + 0xf0))
        (by simp; omega) (by simp; omega) (tail_ofNat (c.toNat / 4096)) (by simp; omega)
        (by simp; omega)
    have either : count = 1 ∨ count = 2 ∨ count = 3 := by
      simp only [List.length_cons, List.length_nil] at cut
      omega
    rcases either with rfl | rfl | rfl
    · exact pieces_of_short lead (by simp) rfl
    · exact pieces_of_short lead (by simp) (tailRun_end above below (by simp) (by simp))
    · have third : ∀ b ∈ [UInt8.ofNat (c.toNat / 64 % 64 + 0x80)], Tail b := by
        simp only [List.forall_mem_cons, tail_ofNat, true_and]
        simp
      exact pieces_of_short lead (by simp) (tailRun_end above below third (by simp))

theorem pieces_encode (cs : List Char) : pieces (encode cs) = cs.map some := by
  induction cs with
  | nil => simp [encode, pieces]
  | cons c cs ih =>
    have step := pieces_encodeChar c (encode cs)
    rw [ih] at step
    simpa [encode] using step

theorem decodeLossy_encode (cs : List Char) : decodeLossy (encode cs) = cs := by
  simp [decodeLossy, pieces_encode, Function.comp_def]

/-- Only the character of code zero has a zero among its bytes. -/
theorem eq_nul_of_zero_mem {c : Char} (h : 0 ∈ String.utf8EncodeChar c) : c = '\x00' := by
  have code : c.val.toNat = c.toNat := rfl
  have positive : ∀ n k : Nat, 0 < k → n + k < 256 → (0 : UInt8) ≠ UInt8.ofNat (n + k) := by
    intro n k hk small zero
    have value := congrArg UInt8.toNat zero
    simp only [UInt8.reduceToNat, UInt8.toNat_ofNat'] at value
    omega
  simp only [String.utf8EncodeChar, code] at h
  split_ifs at h with one two three
  · have value := congrArg UInt8.toNat (List.mem_singleton.mp h)
    simp only [UInt8.reduceToNat, UInt8.toNat_ofNat'] at value
    have zero : c.toNat = 0 := by omega
    rw [← Char.ofNat_toNat c, zero]
  all_goals
    simp only [List.mem_cons, List.not_mem_nil, or_false] at h
    exfalso
  · rcases h with h | h <;> exact positive _ _ (by decide) (by omega) h
  · rcases h with h | h | h <;> exact positive _ _ (by decide) (by omega) h
  · rcases h with h | h | h | h <;> exact positive _ _ (by decide) (by omega) h

theorem zero_not_mem_encode {cs : List Char} (plain : '\x00' ∉ cs) : 0 ∉ encode cs := by
  intro zero
  obtain ⟨c, hc, member⟩ := List.mem_flatMap.mp zero
  exact plain (eq_nul_of_zero_mem member ▸ hc)

end FilterRecord.Text.Utf8
