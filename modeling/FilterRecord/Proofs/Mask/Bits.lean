/- Proofs/Mask/Bits
   digest: Words as sets of bits: what it takes to share no bit, and to have none. -/

import Mathlib.Tactic.Common

set_option autoImplicit false
set_option relaxedAutoImplicit false

namespace FilterRecord

theorem and_or_distrib {a b c : UInt32} : a &&& (b ||| c) = a &&& b ||| a &&& c := by
  simp only [← UInt32.toBitVec_inj, UInt32.toBitVec_and, UInt32.toBitVec_or,
    BitVec.and_or_distrib_left]

theorem or_and_distrib {a b c : UInt32} : (a ||| b) &&& c = a &&& c ||| b &&& c := by
  rw [UInt32.and_comm, and_or_distrib, UInt32.and_comm c a, UInt32.and_comm c b]

theorem and_or_eq_zero_iff {a b c : UInt32} : a &&& (b ||| c) = 0 ↔ a &&& b = 0 ∧ a &&& c = 0 := by
  simp only [← UInt32.toBitVec_inj, UInt32.toBitVec_and, UInt32.toBitVec_or,
    BitVec.and_or_distrib_left]
  simp

theorem or_and_eq_zero_iff {a b c : UInt32} : (a ||| b) &&& c = 0 ↔ a &&& c = 0 ∧ b &&& c = 0 := by
  rw [UInt32.and_comm, and_or_eq_zero_iff, UInt32.and_comm c a, UInt32.and_comm c b]

theorem and_not_of_disjoint {a b : UInt32} (disjoint : a &&& b = 0) : a &&& ~~~b = a := by
  simp only [← UInt32.toBitVec_inj, UInt32.toBitVec_and, UInt32.toBitVec_not] at disjoint ⊢
  ext i hi
  have here : (a.toBitVec &&& b.toBitVec)[i] = (0 : UInt32).toBitVec[i] := by rw [disjoint]
  simp only [BitVec.getElem_and, BitVec.getElem_not, UInt32.toBitVec_zero,
    BitVec.getElem_zero] at here ⊢
  cases ha : a.toBitVec[i] <;> cases hb : b.toBitVec[i] <;> simp_all

theorem or_and_not_of_within {a b : UInt32} (within : a &&& b = b) : b ||| (a &&& ~~~b) = a := by
  simp only [← UInt32.toBitVec_inj, UInt32.toBitVec_and, UInt32.toBitVec_or,
    UInt32.toBitVec_not] at within ⊢
  ext i hi
  have here : (a.toBitVec &&& b.toBitVec)[i] = b.toBitVec[i] := by rw [within]
  simp only [BitVec.getElem_and, BitVec.getElem_or, BitVec.getElem_not] at here ⊢
  cases ha : a.toBitVec[i] <;> cases hb : b.toBitVec[i] <;> simp_all

theorem or_eq_right_of_within {a b : UInt32} (within : a &&& b = a) : a ||| b = b := by
  have split := or_and_not_of_within (a := b) (b := a) (by rw [UInt32.and_comm, within])
  calc a ||| b = a ||| (a ||| (b &&& ~~~a)) := by rw [split]
    _ = a ||| (b &&& ~~~a) := by rw [← UInt32.or_assoc, UInt32.or_self]
    _ = b := split

theorem and_not_within {a b c : UInt32} (within : a &&& (b ||| c) = a) :
    (a &&& ~~~b) &&& c = a &&& ~~~b := by
  simp only [← UInt32.toBitVec_inj, UInt32.toBitVec_and, UInt32.toBitVec_or,
    UInt32.toBitVec_not] at within ⊢
  ext i hi
  have here : (a.toBitVec &&& (b.toBitVec ||| c.toBitVec))[i] = a.toBitVec[i] := by rw [within]
  simp only [BitVec.getElem_and, BitVec.getElem_or, BitVec.getElem_not] at here ⊢
  cases ha : a.toBitVec[i] <;> cases hb : b.toBitVec[i] <;> simp_all

theorem xor_eq_or_of_disjoint {a b : UInt32} (disjoint : a &&& b = 0) : a ^^^ b = a ||| b := by
  simp only [← UInt32.toBitVec_inj, UInt32.toBitVec_and, UInt32.toBitVec_xor,
    UInt32.toBitVec_or] at disjoint ⊢
  ext i hi
  have here : (a.toBitVec &&& b.toBitVec)[i] = (0 : UInt32).toBitVec[i] := by rw [disjoint]
  simp only [BitVec.getElem_and, BitVec.getElem_xor, BitVec.getElem_or, UInt32.toBitVec_zero,
    BitVec.getElem_zero] at here ⊢
  cases ha : a.toBitVec[i] <;> cases hb : b.toBitVec[i] <;> simp_all

theorem outside_disjoint {old mask value : UInt32} (within : value &&& mask = value) :
    (old &&& ~~~mask) &&& value = 0 := by
  calc (old &&& ~~~mask) &&& value = (old &&& ~~~mask) &&& (value &&& mask) := by rw [within]
    _ = (old &&& value) &&& (~~~mask &&& mask) := by ac_rfl
    _ = 0 := by simp

theorem within_iff {value mask : UInt32} : value &&& ~~~mask = 0 ↔ value &&& mask = value := by
  constructor
  · intro outside
    calc value &&& mask = value &&& mask ||| value &&& ~~~mask := by simp [outside]
      _ = value := by rw [← and_or_distrib]; simp
  · intro within
    rw [← within, UInt32.and_assoc]
    simp

theorem and_or_self {a b : UInt32} : a &&& (b ||| a) = a := by
  simp only [← UInt32.toBitVec_inj, UInt32.toBitVec_and, UInt32.toBitVec_or]
  ext i hi
  cases ha : a.toBitVec[i] <;> simp [ha]

theorem and_not_or {a b : UInt32} : (a &&& ~~~b) ||| b = a ||| b := by
  simp only [← UInt32.toBitVec_inj, UInt32.toBitVec_and, UInt32.toBitVec_or, UInt32.toBitVec_not]
  ext i hi
  cases hb : b.toBitVec[i] <;> simp [hb]

def bitsOf (rows : List (String × UInt32)) : UInt32 :=
  rows.foldr (fun row rest => row.2 ||| rest) 0

@[simp]
theorem bitsOf_nil : bitsOf [] = 0 := rfl

theorem bitsOf_cons (row : String × UInt32) (rows : List (String × UInt32)) :
    bitsOf (row :: rows) = row.2 ||| bitsOf rows := rfl

private theorem getLsbD_bitsOf (rows : List (String × UInt32)) (k : Nat) :
    (bitsOf rows).toBitVec.getLsbD k = rows.any fun row => row.2.toBitVec.getLsbD k := by
  induction rows with
  | nil => simp
  | cons row rest ih => simp [bitsOf_cons, ih]

theorem bitsOf_congr {a b : List (String × UInt32)} (same : ∀ row, row ∈ a ↔ row ∈ b) :
    bitsOf a = bitsOf b := by
  rw [← UInt32.toBitVec_inj]
  refine BitVec.eq_of_getLsbD_eq fun k _ => ?_
  rw [getLsbD_bitsOf, getLsbD_bitsOf, Bool.eq_iff_iff]
  simp only [List.any_eq_true, same]

theorem bitsOf_and_of_mem {row : String × UInt32} {rows : List (String × UInt32)}
    (member : row ∈ rows) : bitsOf rows &&& row.2 = row.2 := by
  have again : bitsOf rows = row.2 ||| bitsOf rows := by
    rw [← bitsOf_cons]
    refine bitsOf_congr fun other => ?_
    rw [List.mem_cons]
    constructor
    · exact .inr
    · rintro (rfl | known)
      · exact member
      · exact known
  rw [again, UInt32.and_comm, UInt32.or_comm, and_or_self]

theorem bitsOf_within_of_subset {a b : List (String × UInt32)} (sub : a ⊆ b) :
    bitsOf a &&& bitsOf b = bitsOf a := by
  induction a with
  | nil => simp
  | cons row rest ih =>
    have known : row ∈ b := sub (by simp)
    rw [bitsOf_cons, or_and_distrib, ih (List.subset_of_cons_subset sub), UInt32.and_comm,
      bitsOf_and_of_mem known]

theorem and_bitsOf_eq_zero {bits : UInt32} {rows : List (String × UInt32)}
    (apart : ∀ row ∈ rows, bits &&& row.2 = 0) : bits &&& bitsOf rows = 0 := by
  induction rows with
  | nil => simp
  | cons row rest ih =>
    rw [bitsOf_cons, and_or_eq_zero_iff]
    exact ⟨apart row (by simp), ih fun other known => apart other (by simp [known])⟩

theorem bitsOf_filter_cons {rows : List (String × UInt32)} {row : String × UInt32}
    {answers : String × UInt32 → String → Bool} {name : String} (known : row ∈ rows)
    (own : answers row name = true) (only : ∀ other ∈ rows, answers other name = true → other = row)
    (names : List String) : bitsOf (rows.filter fun r => (name :: names).any (answers r)) =
      row.2 ||| bitsOf (rows.filter fun r => names.any (answers r)) := by
  rw [← bitsOf_cons]
  refine bitsOf_congr fun other => ?_
  simp only [List.mem_filter, List.any_cons, Bool.or_eq_true, List.mem_cons]
  constructor
  · rintro ⟨listed, here | later⟩
    · exact .inl (only other listed here)
    · exact .inr ⟨listed, later⟩
  · rintro (rfl | ⟨listed, later⟩)
    · exact ⟨known, .inl own⟩
    · exact ⟨listed, .inr later⟩

/-- A row's bits are all in a set or all outside of it. -/
def Whole (bits : UInt32) (row : String × UInt32) : Prop :=
  bits &&& row.2 = 0 ∨ bits &&& row.2 = row.2

instance (bits : UInt32) (row : String × UInt32) : Decidable (Whole bits row) :=
  inferInstanceAs (Decidable (_ ∨ _))

theorem whole_or {a b : UInt32} {row : String × UInt32} (ha : Whole a row) (hb : Whole b row) :
    Whole (a ||| b) row := by
  unfold Whole at *
  rw [or_and_distrib]
  rcases ha with ha | ha <;> rcases hb with hb | hb <;> simp [ha, hb]

theorem whole_bitsOf {rows : List (String × UInt32)} {row : String × UInt32}
    (whole : ∀ other ∈ rows, Whole other.2 row) : Whole (bitsOf rows) row := by
  induction rows with
  | nil => exact .inl (by simp)
  | cons first rest ih =>
    exact whole_or (whole first (by simp)) (ih fun other known => whole other (by simp [known]))

theorem whole_and_not {bits : UInt32} {row other : String × UInt32} (whole : Whole bits other)
    (apart : row.2 &&& other.2 = 0) : Whole (bits &&& ~~~row.2) other := by
  have swap : bits &&& ~~~row.2 &&& other.2 = bits &&& other.2 &&& ~~~row.2 := by ac_rfl
  unfold Whole
  rw [swap]
  rcases whole with outside | inside
  · exact .inl (by simp [outside])
  · rw [inside]
    exact .inr (and_not_of_disjoint (by rw [UInt32.and_comm, apart]))

theorem whole_of_one_bit {row : String × UInt32} {k : Nat}
    (one : row.2.toBitVec = BitVec.twoPow 32 k) (bits : UInt32) : Whole bits row := by
  unfold Whole
  simp only [← UInt32.toBitVec_inj, UInt32.toBitVec_and, one, BitVec.and_twoPow]
  cases bits.toBitVec.getLsbD k <;> simp

theorem byte_and_or_distrib {a b c : UInt8} : a &&& (b ||| c) = a &&& b ||| a &&& c := by
  simp only [← UInt8.toBitVec_inj, UInt8.toBitVec_and, UInt8.toBitVec_or,
    BitVec.and_or_distrib_left]

theorem byte_or_and_distrib {a b c : UInt8} : (a ||| b) &&& c = a &&& c ||| b &&& c := by
  rw [UInt8.and_comm, byte_and_or_distrib, UInt8.and_comm c a, UInt8.and_comm c b]

theorem byte_within_or {a b c : UInt8} (within : a &&& b = a) : a &&& (b ||| c) = a := by
  rw [byte_and_or_distrib, within]
  simp only [← UInt8.toBitVec_inj, UInt8.toBitVec_and, UInt8.toBitVec_or]
  ext i hi
  cases ha : a.toBitVec[i] <;> simp [ha]

theorem byte_and_one_bit {a b : UInt8} {k : Nat} (one : b.toBitVec = BitVec.twoPow 8 k) :
    a &&& b = 0 ∨ a &&& b = b := by
  simp only [← UInt8.toBitVec_inj, UInt8.toBitVec_and, one, BitVec.and_twoPow]
  cases a.toBitVec.getLsbD k <;> simp

theorem halfword_or_and_distrib {a b c : UInt16} : (a ||| b) &&& c = a &&& c ||| b &&& c := by
  simp only [← UInt16.toBitVec_inj, UInt16.toBitVec_and, UInt16.toBitVec_or,
    BitVec.and_or_distrib_right]

theorem halfword_or_and_eq_zero_iff {a b c : UInt16} :
    (a ||| b) &&& c = 0 ↔ a &&& c = 0 ∧ b &&& c = 0 := by
  rw [halfword_or_and_distrib, UInt16.or_eq_zero_iff]

def byteBit (k : Fin 8) : UInt8 := 1 <<< UInt8.ofNat k.val

private theorem byte_and_bit {a : UInt8} {k : Fin 8} :
    (a &&& byteBit k != 0) = a.toBitVec.getLsbD k.val := by
  have one : ∀ k : Fin 8, (byteBit k).toBitVec = BitVec.twoPow 8 k.val ∧
      BitVec.twoPow 8 k.val ≠ 0 := by decide
  rw [Bool.eq_iff_iff, bne_iff_ne, ne_eq, ← UInt8.toBitVec_inj, UInt8.toBitVec_and, (one k).1,
    BitVec.and_twoPow]
  cases a.toBitVec.getLsbD k.val with
  | false => simp
  | true => simpa using (one k).2

theorem byte_eq_of_bits {a b : UInt8}
    (same : ∀ k : Fin 8, (a &&& byteBit k != 0) = (b &&& byteBit k != 0)) : a = b := by
  rw [← UInt8.toBitVec_inj]
  refine BitVec.eq_of_getLsbD_eq fun i small => ?_
  have here := same ⟨i, small⟩
  rwa [byte_and_bit, byte_and_bit] at here

def flagsGiven (rows : List (UInt8 × Bool)) : UInt8 :=
  rows.foldr (fun row rest => (if row.2 then row.1 else 0) ||| rest) 0

private theorem flagsGiven_apart {rows : List (UInt8 × Bool)} {flag : UInt8}
    (apart : ∀ row ∈ rows, row.1 &&& flag = 0) : flagsGiven rows &&& flag = 0 := by
  induction rows with
  | nil => simp [flagsGiven]
  | cons row rest ih =>
    have later := ih fun other known => apart other (by simp [known])
    have own : (if row.2 then row.1 else 0) &&& flag = 0 := by
      split
      · exact apart row (by simp)
      · simp
    have split : flagsGiven (row :: rest) = (if row.2 then row.1 else 0) ||| flagsGiven rest := rfl
    rw [split, byte_or_and_distrib, own, later]
    simp

theorem flagsGiven_and {rows : List (UInt8 × Bool)}
    (apart : (rows.map (·.1)).Pairwise fun a b => a &&& b = 0) (filled : 0 ∉ rows.map (·.1)) :
    ∀ row ∈ rows, (flagsGiven rows &&& row.1 != 0) = row.2 := by
  induction rows with
  | nil => simp
  | cons first rest ih =>
    rw [List.map_cons, List.pairwise_cons] at apart
    rw [List.map_cons, List.mem_cons, not_or] at filled
    obtain ⟨outside, inner⟩ := apart
    have split : flagsGiven (first :: rest) =
        (if first.2 then first.1 else 0) ||| flagsGiven rest := rfl
    intro row member
    rw [split, byte_or_and_distrib]
    rcases List.mem_cons.mp member with rfl | known
    · have others : flagsGiven rest &&& row.1 = 0 := flagsGiven_apart fun other known => by
        rw [UInt8.and_comm]
        exact outside other.1 (List.mem_map_of_mem known)
      have some_bit : row.1 ≠ 0 := Ne.symm filled.1
      cases given : row.2 <;> simp [others, some_bit]
    · have own : (if first.2 then first.1 else 0) &&& row.1 = 0 := by
        split
        · exact outside row.1 (List.mem_map_of_mem known)
        · simp
      rw [own, UInt8.zero_or, ih inner filled.2 row known]

theorem flagsGiven_within {rows : List (UInt8 × Bool)} {mask : UInt8}
    (within : ∀ row ∈ rows, row.2 = true → row.1 &&& mask = row.1) :
    flagsGiven rows &&& mask = flagsGiven rows := by
  induction rows with
  | nil => simp [flagsGiven]
  | cons row rest ih =>
    have later := ih fun other known => within other (by simp [known])
    have own : (if row.2 then row.1 else 0) &&& mask = if row.2 then row.1 else 0 := by
      split
      · rename_i given
        exact within row (by simp) given
      · simp
    have split : flagsGiven (row :: rest) = (if row.2 then row.1 else 0) ||| flagsGiven rest := rfl
    rw [split, byte_or_and_distrib, own, later]

theorem one_le_of_ne_zero {n : UInt8} (h : n ≠ 0) : 1 ≤ n := by
  rw [UInt8.le_iff_toNat_le]
  have nonzero : n.toNat ≠ 0 := fun zero => h (UInt8.toNat_inj.mp zero)
  exact Nat.one_le_iff_ne_zero.mpr nonzero

theorem ne_zero_of_one_le {n : UInt8} (h : 1 ≤ n) : n ≠ 0 := by
  rintro rfl
  exact absurd h (by decide)

end FilterRecord
