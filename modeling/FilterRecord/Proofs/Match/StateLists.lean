/- Proofs/Match/StateLists
   digest: Which sets of states have names, which names show them, and which lists are read. -/

import FilterRecord.Proofs.Match.States

set_option autoImplicit false
set_option relaxedAutoImplicit false

namespace FilterRecord.StateTable

open Text

/-- The state that no single name has: only the name of all states stands for it. -/
def unnamed : UInt32 := 0x1000

def spelled (names : List String) : StateTable :=
  (aggregates ++ single).filter fun row => names.any (sameLetters row.1)

variable {states : UInt32} {names : List String} {name text : String} {sets : StateTable}

/-! ## What is shown -/

private theorem aggregates_apart : aggregates.tail.Pairwise fun a b => a.2 &&& b.2 = 0 := by
  decide

private theorem aggregates_whole : ∀ a ∈ aggregates.tail, ∀ b ∈ aggregates.tail, Whole a.2 b := by
  decide

private theorem coverFrom_sets (sub : sets ⊆ aggregates.tail) (some_state : bitsOf sets ≠ 0) :
    ∃ names, coverFrom (bitsOf sets) aggregates.tail = some names :=
  coverFrom_complete aggregates_apart
    (fun row known => whole_bitsOf fun other member => aggregates_whole other (sub member) row known)
    (bitsOf_within_of_subset sub) some_state

/-- The greedy cover by the names of sets finds one wherever some of these sets make up the states. -/
theorem cover_aggregates_iff (some_state : states &&& all ≠ 0) :
    (∃ names, cover aggregates states = some names) ↔
      ∃ sets, sets ⊆ aggregates ∧ bitsOf sets = states &&& all := by
  constructor
  · rintro ⟨names, covered⟩
    obtain ⟨sets, sub, -, -, bits⟩ := cover_rows covered
    exact ⟨sets, sub, bits⟩
  · rintro ⟨sets, sub, bits⟩
    rw [cover, if_neg some_state, ← bits]
    by_cases whole : bitsOf sets = all
    · exact ⟨["ANY"], by rw [whole]; decide⟩
    · have proper : sets ⊆ aggregates.tail := by
        intro row member
        rcases List.mem_cons.mp (sub member) with rfl | other
        · -- The row of all states has every bit that is left.
          have within : bitsOf sets &&& all = bitsOf sets := by
            rw [bits, UInt32.and_assoc, UInt32.and_self]
          exact absurd (within.symm.trans (bitsOf_and_of_mem member)) whole
        · exact other
      have left_out : bitsOf sets &&& all ≠ all := by
        rw [bits, UInt32.and_assoc, UInt32.and_self, ← bits]
        exact whole
      rw [← bits] at some_state
      have tail : coverFrom (bitsOf sets) aggregates =
          coverFrom (bitsOf sets) aggregates.tail := if_neg left_out
      rw [tail]
      exact coverFrom_sets proper some_state

private theorem single_name : ∀ row ∈ single, row.1 ∉ aggregates.map (·.1) := by
  decide

theorem pieces_aggregates_iff (shown : display? states = some text) :
    (∀ name ∈ pieces text, name ∈ aggregates.map (·.1)) ↔
      ∃ sets, sets ⊆ aggregates ∧ bitsOf sets = states &&& all := by
  obtain ⟨names, named, pieces⟩ := pieces_display? shown
  obtain ⟨sets, tables, some_set, rfl, bits⟩ := names?_rows named
  rw [pieces]
  constructor
  · intro all_sets
    rcases tables with sub | ⟨-, sub⟩
    · exact ⟨sets, sub, bits⟩
    · obtain ⟨row, member⟩ := List.exists_mem_of_ne_nil sets some_set
      exact absurd (all_sets row.1 (List.mem_map_of_mem member)) (single_name row (sub member))
  · intro made name member
    rcases tables with sub | ⟨uncovered, -⟩
    · exact List.map_subset _ sub member
    · by_cases none : states &&& all = 0
      · rw [names?, uncovered, cover, if_pos none] at named
        cases named
      · obtain ⟨others, covered⟩ := (cover_aggregates_iff none).mpr made
        rw [uncovered] at covered
        cases covered

/-- A list can give all states, or any that do not need the state without a name. -/
theorem listed_iff : Listed (states &&& all) ↔ states &&& all = all ∨ states &&& unnamed = 0 := by
  have parts : all = bitsOf single ||| unnamed := by decide
  have apart : bitsOf single &&& unnamed = 0 := by decide
  have known : all &&& unnamed = unnamed := by decide
  have proper : all &&& bitsOf single = bitsOf single := by decide
  have cut : states &&& all &&& bitsOf single = states &&& bitsOf single := by
    rw [UInt32.and_assoc, proper]
  unfold Listed
  rw [cut]
  refine or_congr_right ⟨fun within => ?_, fun outside => ?_⟩
  · calc states &&& unnamed = states &&& all &&& unnamed := by rw [UInt32.and_assoc, known]
      _ = states &&& (bitsOf single &&& unnamed) := by rw [← within, UInt32.and_assoc]
      _ = 0 := by rw [apart]; simp
  · rw [parts, and_or_distrib, outside, UInt32.or_zero]

/-- Every set of states is shown but the empty one and those that have the state without a name and
not all others. -/
theorem isSome_display?_iff : (display? states).isSome = true ↔
    states &&& all = all ∨ (states &&& all ≠ 0 ∧ states &&& unnamed = 0) := by
  have filled : all ≠ 0 := by decide
  rw [← display?_and_all]
  constructor
  · intro shown
    obtain ⟨text, shown⟩ := Option.isSome_iff_exists.mp shown
    have some_state : states &&& all ≠ 0 := by
      intro none
      rw [none, display?_zero] at shown
      cases shown
    rw [display?_and_all] at shown
    rcases listed_iff.mp (listed_display? shown) with whole | proper
    · exact .inl whole
    · exact .inr ⟨some_state, proper⟩
  · intro reach
    have listed : Listed (states &&& all) :=
      listed_iff.mpr (reach.imp_right And.right)
    have some_state : states &&& all ≠ 0 := by
      rcases reach with whole | ⟨some_state, -⟩
      · rwa [whole]
      · exact some_state
    obtain ⟨text, shown, -⟩ := read?_display? listed some_state
    rw [shown]
    rfl

/-! ## What is read -/

private theorem row_apart : ∀ row ∈ aggregates ++ single, ∀ other ∈ aggregates ++ single,
    sameLetters row.1 other.1 = true → row = other := by
  decide +kernel

theorem exists_row_of_bits? (found : bits? name = some states) :
    ∃ row ∈ aggregates ++ single, sameLetters row.1 name = true := by
  obtain ⟨row, search, -⟩ := Option.map_eq_some_iff.mp found
  have own := List.find?_some search
  exact ⟨row, List.mem_of_find?_eq_some search, own⟩

theorem bits?_of_row {row : String × UInt32} (known : row ∈ aggregates ++ single)
    (same : sameLetters row.1 name = true) : bits? name = some row.2 := by
  cases search : (aggregates ++ single).find? fun row => sameLetters row.1 name with
  | none => exact absurd same (List.find?_eq_none.mp search row known)
  | some other =>
    have own := List.find?_some search
    have one := row_apart other (List.mem_of_find?_eq_some search) row known
      (sameLetters_trans own same)
    rw [bits?, search, one]
    rfl

private theorem bitsOf_spelled_cons (found : bits? name = some states) :
    bitsOf (spelled (name :: names)) = states ||| bitsOf (spelled names) := by
  obtain ⟨row, known, own⟩ := exists_row_of_bits? found
  cases found.symm.trans (bits?_of_row known own)
  refine bitsOf_filter_cons known own (fun other listed same => ?_) names
  exact row_apart other listed row known (sameLetters_trans same own)

theorem union?_eq_some_iff : union? names = some states ↔
    (∀ name ∈ names, ∃ row ∈ aggregates ++ single, sameLetters row.1 name = true) ∧
      states = bitsOf (spelled names) := by
  induction names generalizing states with
  | nil =>
    have none : bitsOf (spelled []) = 0 := by decide
    rw [none, union?, Option.some.injEq, eq_comm]
    simp
  | cons name rest ih =>
    rw [union?_cons_iff, List.forall_mem_cons]
    constructor
    · rintro ⟨own, _, found, others, rfl⟩
      obtain ⟨all_known, rfl⟩ := ih.mp others
      exact ⟨⟨exists_row_of_bits? found, all_known⟩, (bitsOf_spelled_cons found).symm⟩
    · rintro ⟨⟨⟨row, known, same⟩, all_known⟩, rfl⟩
      have found := bits?_of_row known same
      exact ⟨_, _, found, ih.mpr ⟨all_known, rfl⟩, (bitsOf_spelled_cons found).symm⟩

theorem union?_congr {other : List String} (same : ∀ name, name ∈ names ↔ name ∈ other) :
    union? names = union? other := by
  have rows : spelled names = spelled other := by
    refine List.filter_congr fun row _ => ?_
    rw [Bool.eq_iff_iff, List.any_eq_true, List.any_eq_true]
    simp only [same]
  refine Option.ext fun states => ?_
  rw [union?_eq_some_iff, union?_eq_some_iff, rows]
  simp only [same]

/-- A set of states is shown where a list can give it; what is shown reads back as the states with a
name, and has the names of sets alone exactly where some of these sets make it up. A list is read
where each piece of it that is not empty is a name, in whatever case its letters are, and then as
the states of all of them, whatever their order and however often they come. Unless these are none,
they are shown. -/
theorem read_and_shown :
    (∀ states, ((display? states).isSome = true ↔
        states &&& all = all ∨ (states &&& all ≠ 0 ∧ states &&& unnamed = 0)) ∧
      ∀ text, display? states = some text → read? text = some (states &&& all) ∧
        ((∀ name ∈ pieces text, name ∈ aggregates.map (·.1)) ↔
          ∃ sets, sets ⊆ aggregates ∧ bitsOf sets = states &&& all)) ∧
    (∀ list states, read? list = some states ↔
      (∀ name ∈ filledPieces list,
        ∃ row ∈ aggregates ++ single, sameLetters row.1 name = true) ∧
      states = bitsOf (spelled (filledPieces list))) ∧
    (∀ list other, (∀ name, name ∈ filledPieces list ↔ name ∈ filledPieces other) →
      read? list = read? other) ∧
    (∀ list states, read? list = some states → states ≠ 0 →
      (display? states).isSome = true) := by
  refine ⟨fun states => ⟨isSome_display?_iff, fun text shown => ?_⟩, fun list states => ?_,
    fun list other same => ?_, fun list states read some_state => ?_⟩
  · exact ⟨read?_of_display? shown, pieces_aggregates_iff shown⟩
  · rw [read?_eq]
    exact union?_eq_some_iff
  · rw [read?_eq, read?_eq]
    exact union?_congr same
  · obtain ⟨text, shown, -⟩ := read?_display? (listed_read? read) some_state
    rw [shown]
    rfl

end FilterRecord.StateTable
