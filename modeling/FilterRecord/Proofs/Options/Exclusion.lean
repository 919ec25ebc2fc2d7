/- Proofs/Options/Exclusion
   digest: What a register refuses: options seen before, and options that exclude one seen before. -/

import Mathlib.Data.List.Nodup
import Mathlib.Data.List.Pairwise
import FilterRecord.Proofs.Options.Register
import FilterRecord.Target.ConnTrack

set_option autoImplicit false
set_option relaxedAutoImplicit false

namespace FilterRecord.Options

/-- An option table whose rows are told apart by their names, and by bits within a register. -/
structure Distinct (table : List Entry) : Prop where
  names : (table.map (·.name)).Nodup
  ids : (table.map (·.id)).Nodup
  small : ∀ e ∈ table, e.id < 32

instance (table : List Entry) : Decidable (Distinct table) :=
  decidable_of_iff ((table.map (·.name)).Nodup ∧ (table.map (·.id)).Nodup ∧ ∀ e ∈ table, e.id < 32)
    ⟨fun ⟨names, ids, small⟩ => ⟨names, ids, small⟩, fun ⟨names, ids, small⟩ => ⟨names, ids, small⟩⟩

/-- An option may not come after another: its mask has the other's bit. -/
def Entry.Excludes (e other : Entry) : Prop := other.bit &&& e.excluded ≠ 0

instance (e other : Entry) : Decidable (e.Excludes other) :=
  inferInstanceAs (Decidable (_ ≠ _))

/-- A register after options of a table, each of which passed its check before it was added. -/
inductive Register.Reached (table : List Entry) : List Entry → Register → Prop
  | empty : Reached table [] .empty
  | add {options : List Entry} {r : Register} {e : Entry} (before : Reached table options r)
    (row : e ∈ table) (extension : String) (passed : r.check extension table e = .ok ()) :
    Reached table (options ++ [e]) (r.add e)

/-! ## Bits of options -/

private theorem toBitVec_bit {id : Nat} (small : id < 32) :
    (bit id).toBitVec = BitVec.twoPow 32 id := by
  have every : ∀ k : Fin 32, (bit k.val).toBitVec = BitVec.twoPow 32 k.val := by decide
  exact every ⟨id, small⟩

private theorem and_bit_ne_zero_iff {id : Nat} (small : id < 32) {a : UInt32} :
    a &&& bit id ≠ 0 ↔ a.toBitVec.getLsbD id = true := by
  have some_bit : BitVec.twoPow 32 id ≠ 0 := by
    rw [← toBitVec_bit small]
    have every : ∀ k : Fin 32, (bit k.val).toBitVec ≠ 0 := by decide
    exact every ⟨id, small⟩
  rw [ne_eq, ← UInt32.toBitVec_inj, UInt32.toBitVec_and, toBitVec_bit small, BitVec.and_twoPow]
  cases a.toBitVec.getLsbD id with
  | false => simp
  | true => simpa using some_bit

private theorem and_and_bit_ne_zero_iff {id : Nat} (small : id < 32) {a b : UInt32} :
    a &&& b &&& bit id ≠ 0 ↔ a &&& bit id ≠ 0 ∧ bit id &&& b ≠ 0 := by
  rw [UInt32.and_comm (bit id), and_bit_ne_zero_iff small, and_bit_ne_zero_iff small,
    and_bit_ne_zero_iff small, UInt32.toBitVec_and, BitVec.getLsbD_and, Bool.and_eq_true]

private theorem bit_and_bit_ne_zero_iff {id other : Nat} (small : id < 32) (small' : other < 32) :
    bit id &&& bit other ≠ 0 ↔ id = other := by
  rw [and_bit_ne_zero_iff small', toBitVec_bit small, BitVec.getLsbD_twoPow]
  simp [small]

private theorem bits_and_eq_zero_iff {ids : List Nat} {mask : UInt32} :
    bits ids &&& mask = 0 ↔ ∀ id ∈ ids, bit id &&& mask = 0 := by
  induction ids with
  | nil => simp [bits]
  | cons id rest ih =>
    have first : bits (id :: rest) = bit id ||| bits rest := rfl
    rw [first, or_and_eq_zero_iff, ih, List.forall_mem_cons]

private theorem bits_append (ids : List Nat) (id : Nat) :
    bits (ids ++ [id]) = bits ids ||| bit id := by
  induction ids with
  | nil => simp [bits]
  | cons first rest ih =>
    have split (more : List Nat) : bits (first :: more) = bit first ||| bits more := rfl
    rw [List.cons_append, split, split, ih, UInt32.or_assoc]

/-! ## Registers that options reach -/

namespace Register.Reached

variable {table options : List Entry} {r : Register} {e other : Entry} {mask : UInt32}

theorem bits_eq (reached : Reached table options r) :
    r.bits = Options.bits (options.map (·.id)) := by
  induction reached with
  | empty => rfl
  | add _ _ _ _ ih =>
    rw [List.map_append, List.map_singleton, bits_append, ← ih]
    rfl

theorem row (reached : Reached table options r) (set : e ∈ options) : e ∈ table := by
  induction reached with
  | empty => exact absurd set List.not_mem_nil
  | add _ row _ _ ih =>
    rcases List.mem_append.mp set with before | last
    · exact ih before
    · rw [List.mem_singleton.mp last]
      exact row

theorem misses_iff (reached : Reached table options r) :
    r.Misses mask ↔ ∀ e ∈ options, e.bit &&& mask = 0 := by
  rw [Misses, reached.bits_eq, bits_and_eq_zero_iff, List.forall_mem_map]
  rfl

theorem misses_bit_iff (distinct : Distinct table) (reached : Reached table options r)
    (known : e ∈ table) : r.Misses e.bit ↔ e ∉ options := by
  have small := distinct.small e known
  rw [reached.misses_iff]
  constructor
  · intro clear set
    exact (bit_and_bit_ne_zero_iff small small).mpr rfl (clear e set)
  · intro unset other set
    have row := reached.row set
    by_contra met
    have same : other.id = e.id := (bit_and_bit_ne_zero_iff (distinct.small other row) small).mp met
    rw [List.inj_on_of_nodup_map distinct.ids row known same] at set
    exact unset set

theorem pairwise (distinct : Distinct table) (reached : Reached table options r) :
    options.Pairwise fun earlier later => earlier ≠ later ∧ ¬ later.Excludes earlier := by
  induction reached with
  | empty => exact .nil
  | add before row _ passed ih =>
    obtain ⟨fresh, free⟩ := misses_or.mp (check_eq_ok_iff.mp passed)
    have unset := (before.misses_bit_iff distinct row).mp fresh
    refine List.pairwise_append.mpr
      ⟨ih, List.pairwise_singleton _ _, fun earlier set later last => ?_⟩
    rw [List.mem_singleton.mp last]
    exact ⟨ne_of_mem_of_not_mem set unset, not_not.mpr (before.misses_iff.mp free earlier set)⟩

/-- Where exclusions go both ways, no two options exclude each other that are set together. -/
theorem not_excludes (distinct : Distinct table) (reached : Reached table options r)
    (symmetric : ∀ e ∈ table, ∀ other ∈ table, e.Excludes other → other.Excludes e)
    (set : e ∈ options) (set' : other ∈ options) (two : e ≠ other) : ¬ e.Excludes other := by
  have both : options.Pairwise fun e other => ¬ e.Excludes other ∧ ¬ other.Excludes e := by
    refine (reached.pairwise distinct).imp_of_mem fun first second apart => ?_
    exact ⟨mt (symmetric _ (reached.row first) _ (reached.row second)) apart.2, apart.2⟩
  have either : Std.Symm fun e other : Entry => ¬ e.Excludes other ∧ ¬ other.Excludes e :=
    ⟨fun _ _ => And.symm⟩
  exact (both.forall set set' two).1

end Register.Reached

/-- The row that the refusal of an option names: the first of the table that is set and that the
option excludes. -/
def FirstExcluded (table options : List Entry) (e other : Entry) : Prop :=
  ∃ before after, table = before ++ other :: after ∧ (other ∈ options ∧ e.Excludes other) ∧
    ∀ earlier ∈ before, ¬ (earlier ∈ options ∧ e.Excludes earlier)

namespace Register.Reached

variable {table options : List Entry} {r : Register} {e other : Entry}

theorem check_set (distinct : Distinct table) (reached : Reached table options r)
    (extension : String) (set : e ∈ options) :
    r.check extension table e = .error (.exclusion extension e.name e.name) := by
  have met : r.intersects e.bit = true := by
    rw [intersects, bne_iff_ne]
    exact fun clear => (reached.misses_bit_iff distinct (reached.row set)).mp clear set
  rw [check, if_pos met]

private theorem clash_iff (distinct : Distinct table) (reached : Reached table options r)
    (row : other ∈ table) :
    (r.bits &&& e.excluded &&& other.bit != 0) = true ↔ other ∈ options ∧ e.Excludes other := by
  rw [bne_iff_ne, Entry.bit, and_and_bit_ne_zero_iff (distinct.small other row)]
  refine and_congr_left fun _ => ?_
  rw [← not_iff_not, not_not]
  exact reached.misses_bit_iff distinct row

/-- An option that is not set passes unless it excludes one that is, and is then told the first such
row. -/
theorem check_unset (distinct : Distinct table) (reached : Reached table options r)
    (extension : String) (row : e ∈ table) (unset : e ∉ options) :
    (r.check extension table e = .ok () ∧ ∀ other ∈ options, ¬ e.Excludes other) ∨
    ∃ other, FirstExcluded table options e other ∧
      r.check extension table e = .error (.exclusion extension e.name other.name) := by
  have fresh : r.bits &&& e.bit = 0 := (reached.misses_bit_iff distinct row).mpr unset
  cases search : table.find? fun other => r.bits &&& e.excluded &&& other.bit != 0 with
  | none =>
    have free : ∀ other ∈ options, ¬ e.Excludes other := by
      intro other set excluded
      have known := reached.row set
      exact List.find?_eq_none.mp search other known
        ((reached.clash_iff distinct known).mpr ⟨set, excluded⟩)
    have clear : r.Misses e.excluded :=
      reached.misses_iff.mpr fun other set => not_not.mp (free other set)
    exact .inl ⟨check_eq_ok_iff.mpr (misses_or.mpr ⟨fresh, clear⟩), free⟩
  | some other =>
    obtain ⟨met, before, after, rfl, first⟩ := List.find?_eq_some_iff_append.mp search
    refine .inr ⟨other, ⟨before, after, rfl, ?_, fun earlier listed excluded => ?_⟩, ?_⟩
    · exact (reached.clash_iff distinct (by simp)).mp met
    · have missed := first earlier listed
      rw [(reached.clash_iff distinct (by simp [listed])).mpr excluded] at missed
      cases missed
    · have rest : r.bits &&& e.excluded &&& ~~~e.bit = r.bits &&& e.excluded := by
        rw [UInt32.and_assoc, UInt32.and_comm e.excluded, ← UInt32.and_assoc,
          and_not_of_disjoint fresh]
      have clash : r.bits &&& e.excluded ≠ 0 := by
        intro none
        rw [none] at met
        simp at met
      have unmet : ¬ r.intersects e.bit = true := by
        rw [intersects, bne_iff_ne, not_not]
        exact fresh
      rw [check, if_neg unmet, rest]
      dsimp only
      rw [if_neg clash, search]

end Register.Reached

theorem FirstExcluded.other {table options : List Entry} {e other : Entry}
    (distinct : Distinct table) (row : e ∈ table) (unset : e ∉ options)
    (first : FirstExcluded table options e other) : other ≠ e ∧ other.name ≠ e.name := by
  obtain ⟨before, after, rfl, ⟨set, -⟩, -⟩ := first
  have two : other ≠ e := ne_of_mem_of_not_mem set unset
  refine ⟨two, fun same => two ?_⟩
  exact List.inj_on_of_nodup_map distinct.names (by simp) row same

/-- A register that options of a table have reached, each after it passed its check, holds the bits
of these options, none of them set twice. An option of the table is refused where it is set, and the
refusal names the option alone, or where it excludes one that is set, and the refusal then names
another option, the first such row of the table. Where exclusions go both ways, no two options that
exclude each other are set together. -/
theorem refusal_names_conflict {table options : List Entry} {r : Register}
    (distinct : Distinct table) (reached : Register.Reached table options r) :
    r.bits = bits (options.map (·.id)) ∧ options.Nodup ∧
    (∀ e ∈ table, ∀ extension,
      ((∃ error, r.check extension table e = .error error) ↔
        e ∈ options ∨ ∃ other ∈ options, e.Excludes other) ∧
      (e ∈ options → ∀ error, r.check extension table e = .error error →
        error = .exclusion extension e.name e.name ∧
        error.message = extension ++ ": option \"--" ++ e.name ++ "\" can only be used once.") ∧
      (e ∉ options → ∀ error, r.check extension table e = .error error →
        ∃ other, FirstExcluded table options e other ∧ other ≠ e ∧ other.name ≠ e.name ∧
          error = .exclusion extension e.name other.name ∧
          error.message = extension ++ ": option \"--" ++ e.name ++
            "\" cannot be used together with \"--" ++ other.name ++ "\".")) ∧
    ((∀ e ∈ table, ∀ other ∈ table, e.Excludes other → other.Excludes e) →
      ∀ e ∈ options, ∀ other ∈ options, e ≠ other → ¬ e.Excludes other) := by
  refine ⟨reached.bits_eq, (reached.pairwise distinct).imp And.left, fun e row extension => ?_,
    fun symmetric e set other set' two => reached.not_excludes distinct symmetric set set' two⟩
  by_cases set : e ∈ options
  · rw [reached.check_set distinct extension set]
    refine ⟨iff_of_true ⟨_, rfl⟩ (.inl set), fun _ error same => ?_, (absurd set ·)⟩
    cases same
    exact ⟨rfl, if_pos rfl⟩
  · rcases reached.check_unset distinct extension row set with
      ⟨passed, free⟩ | ⟨other, first, refused⟩
    · rw [passed]
      refine ⟨iff_of_false ?_ ?_, (absurd · set), fun _ error same => ?_⟩
      · rintro ⟨error, same⟩
        cases same
      · rintro (member | ⟨other, member, excluded⟩)
        · exact set member
        · exact free other member excluded
      · cases same
    · obtain ⟨two, named⟩ := first.other distinct row set
      obtain ⟨-, -, -, excluded, -⟩ := id first
      rw [refused]
      refine ⟨iff_of_true ⟨_, rfl⟩ (.inr ⟨other, excluded⟩), (absurd · set), fun _ error same => ?_⟩
      cases same
      exact ⟨other, first, two, named, rfl, if_neg (Ne.symm named)⟩

/-- The refusal names a row of the table, not the option that was set first. -/
theorem refusal_names_conflict_notrack :
    let notrack := ConnTrack.fullTable[0]
    let zone := ConnTrack.fullTable[1]
    let helper := ConnTrack.fullTable[4]
    let r := (Register.empty.add helper).add zone
    Distinct ConnTrack.fullTable ∧ Register.Reached ConnTrack.fullTable [helper, zone] r ∧
      notrack ∉ [helper, zone] ∧
      r.check "CT" ConnTrack.fullTable notrack = .error (.exclusion "CT" "notrack" "zone") ∧
      ∃ other, FirstExcluded ConnTrack.fullTable [helper, zone] notrack other ∧
        other.name = "zone" := by
  intro notrack zone helper r
  have distinct : Distinct ConnTrack.fullTable := by decide
  have reached : Register.Reached ConnTrack.fullTable [helper, zone] r :=
    .add (.add .empty (by decide) "CT" (Register.check_eq_ok_iff.mpr (by decide))) (by decide) "CT"
      (Register.check_eq_ok_iff.mpr (by decide))
  have unset : notrack ∉ [helper, zone] := by decide
  have refused : r.check "CT" ConnTrack.fullTable notrack =
      .error (.exclusion "CT" "notrack" "zone") := by
    have search : ConnTrack.fullTable.find? (fun other =>
        r.bits &&& notrack.excluded &&& ~~~notrack.bit &&& other.bit != 0) = some zone := by decide
    rw [Register.check, if_neg (by decide)]
    dsimp only
    rw [if_neg (by decide), search]
    rfl
  obtain ⟨-, told⟩ := ((refusal_names_conflict distinct reached).2.2.1 notrack (by decide) "CT").2
  obtain ⟨other, first, -, -, same, -⟩ := told unset _ refused
  injection same with _ _ named
  exact ⟨distinct, reached, unset, refused, other, first, named.symm⟩

end FilterRecord.Options
