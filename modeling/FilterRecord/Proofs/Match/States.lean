/- Proofs/Match/States
   digest: The states of an accepted list, unless there are none, have names that read back. -/

import FilterRecord.Match.States
import FilterRecord.Proofs.Mask.Bits
import FilterRecord.Proofs.Text.Words

set_option autoImplicit false
set_option relaxedAutoImplicit false

namespace FilterRecord.StateTable

open Text

/-- The states that a list can give: every one, or some of those that have a name alone. -/
def Listed (states : UInt32) : Prop := states = all ∨ states &&& bitsOf single = states

instance (states : UInt32) : Decidable (Listed states) := inferInstanceAs (Decidable (_ ∨ _))

private theorem row_found : ∀ row ∈ aggregates ++ single, bits? row.1 = some row.2 := by
  decide

private theorem row_listed : ∀ row ∈ aggregates ++ single, Listed row.2 := by
  decide

private theorem row_solid : ∀ row ∈ aggregates ++ single, Solid row.1 ∧ ',' ∉ row.1.toList := by
  decide

private theorem row_one_bit : ∀ row ∈ single,
    ∃ k : Fin 32, row.2.toBitVec = BitVec.twoPow 32 k.val := by
  decide

private theorem single_apart : single.Pairwise fun a b => a.2 &&& b.2 = 0 := by
  decide

variable {states left : UInt32} {names : List String} {rows : StateTable}

theorem within_all (listed : Listed states) : states &&& all = states := by
  rcases listed with rfl | within
  · decide
  · have named : bitsOf single &&& all = bitsOf single := by decide
    rw [← within, UInt32.and_assoc, named]

private theorem listed_or {a b : UInt32} (ha : Listed a) (hb : Listed b) : Listed (a ||| b) := by
  have every {some_states : UInt32} (h : Listed some_states) : some_states ||| all = all :=
    or_eq_right_of_within (within_all h)
  rcases ha with rfl | ha'
  · exact .inl (by rw [UInt32.or_comm, every hb])
  · rcases hb with rfl | hb'
    · exact .inl (every (.inr ha'))
    · exact .inr (by rw [or_and_distrib, ha', hb'])

theorem union?_cons_iff {name : String} : union? (name :: names) = some states ↔
    ∃ own others, bits? name = some own ∧ union? names = some others ∧ own ||| others = states := by
  rw [union?]
  cases bits? name <;> cases union? names <;> simp

private theorem listed_union? (read : union? names = some states) : Listed states := by
  induction names generalizing states with
  | nil =>
    cases read
    decide
  | cons name rest ih =>
    obtain ⟨_, _, found, tail, rfl⟩ := union?_cons_iff.mp read
    obtain ⟨row, search, rfl⟩ := Option.map_eq_some_iff.mp found
    exact listed_or (row_listed row (List.mem_of_find?_eq_some search)) (ih tail)

theorem coverFrom_rows (covered : coverFrom left rows = some names) :
    ∃ sets, List.Sublist sets rows ∧ sets ≠ [] ∧ names = sets.map (·.1) ∧ bitsOf sets = left := by
  induction rows generalizing left names with
  | nil => exact absurd covered (by simp [coverFrom])
  | cons row rest ih =>
    unfold coverFrom at covered
    split at covered
    · rename_i taken
      have whole := or_and_not_of_within taken
      dsimp only at covered
      split at covered
      · rename_i none
        cases covered
        rw [none] at whole
        exact ⟨[row], by simp, by simp, rfl, whole⟩
      · obtain ⟨others, more, rfl⟩ := Option.map_eq_some_iff.mp covered
        obtain ⟨sets, sub, -, rfl, bits⟩ := ih more
        exact ⟨row :: sets, sub.cons_cons row, by simp, rfl, by rw [bitsOf_cons, bits, whole]⟩
    · obtain ⟨sets, sub, some_set, rfl, bits⟩ := ih covered
      exact ⟨sets, sub.cons row, some_set, rfl, bits⟩

theorem coverFrom_complete (apart : rows.Pairwise fun a b => a.2 &&& b.2 = 0)
    (whole : ∀ row ∈ rows, Whole left row) (within : left &&& bitsOf rows = left)
    (some_state : left ≠ 0) : ∃ names, coverFrom left rows = some names := by
  induction rows generalizing left with
  | nil =>
    have none : left = 0 := by simpa [eq_comm] using within
    exact absurd none some_state
  | cons row rest ih =>
    obtain ⟨first, later⟩ := List.pairwise_cons.mp apart
    obtain ⟨own, others⟩ := List.forall_mem_cons.mp whole
    rw [bitsOf_cons] at within
    unfold coverFrom
    split
    · by_cases none : left &&& ~~~row.2 = 0
      · exact ⟨[row.1], by simp [none]⟩
      · obtain ⟨names, more⟩ := ih later
          (fun other known => whole_and_not (others other known) (first other known))
          (and_not_within within) none
        exact ⟨row.1 :: names, by simp [none, more]⟩
    · rename_i left_out
      -- A row that is passed over has nothing of what is left to cover.
      rcases own with outside | inside
      · rw [and_or_distrib, outside, UInt32.zero_or] at within
        exact ih later others within some_state
      · exact absurd inside left_out

theorem cover_rows {t : StateTable} (covered : cover t states = some names) :
    ∃ sets, sets ⊆ t ∧ sets ≠ [] ∧ names = sets.map (·.1) ∧ bitsOf sets = states &&& all := by
  unfold cover at covered
  split at covered
  · cases covered
  · obtain ⟨sets, sub, some_set, names, bits⟩ := coverFrom_rows covered
    exact ⟨sets, sub.subset, some_set, names, bits⟩

theorem names?_rows (named : names? states = some names) :
    ∃ sets, (sets ⊆ aggregates ∨ cover aggregates states = none ∧ sets ⊆ single) ∧ sets ≠ [] ∧
      names = sets.map (·.1) ∧ bitsOf sets = states &&& all := by
  unfold names? at named
  split at named
  · rename_i covered
    cases named
    obtain ⟨sets, sub, made⟩ := cover_rows covered
    exact ⟨sets, .inl sub, made⟩
  · rename_i none
    obtain ⟨sets, sub, made⟩ := cover_rows named
    exact ⟨sets, .inr ⟨none, sub⟩, made⟩

private theorem union?_rows {sets : StateTable} (known : sets ⊆ aggregates ++ single) :
    union? (sets.map (·.1)) = some (bitsOf sets) := by
  induction sets with
  | nil => rfl
  | cons row rest ih =>
    have found := row_found row (known (by simp))
    have later := ih (List.subset_of_cons_subset known)
    exact union?_cons_iff.mpr ⟨_, _, found, later, rfl⟩

private theorem names?_sound (named : names? states = some names) :
    names ≠ [] ∧ union? names = some (states &&& all) ∧
      ∀ name ∈ names, Solid name ∧ ',' ∉ name.toList := by
  obtain ⟨sets, tables, some_set, rfl, bits⟩ := names?_rows named
  have known : sets ⊆ aggregates ++ single := by
    rcases tables with sub | ⟨-, sub⟩
    · exact List.subset_append_of_subset_left _ sub
    · exact List.subset_append_of_subset_right _ sub
  refine ⟨by simpa using some_set, by rw [union?_rows known, bits], fun name member => ?_⟩
  obtain ⟨row, listed, rfl⟩ := List.mem_map.mp member
  exact row_solid row (known listed)

private theorem names?_listed (listed : Listed states) (some_state : states ≠ 0) :
    ∃ names, names? states = some names := by
  have whole := within_all listed
  have covers (t : StateTable) : cover t states = coverFrom states t := by
    simp [cover, whole, some_state]
  cases sets : coverFrom states aggregates with
  | some names => exact ⟨names, by simp [names?, covers, sets]⟩
  | none =>
    have rest : states &&& bitsOf single = states := by
      rcases listed with rfl | rest
      · exact absurd sets (by decide)
      · exact rest
    have one : ∀ row ∈ single, Whole states row := by
      intro row known
      obtain ⟨_, bit⟩ := row_one_bit row known
      exact whole_of_one_bit bit states
    obtain ⟨names, covered⟩ := coverFrom_complete single_apart one rest some_state
    exact ⟨names, by simp [names?, covers, sets, covered]⟩

theorem pieces_display? {text : String} (shown : display? states = some text) :
    ∃ names, names? states = some names ∧ pieces text = names := by
  obtain ⟨names, named, rfl⟩ := Option.map_eq_some_iff.mp shown
  obtain ⟨some_name, -, solid⟩ := names?_sound named
  exact ⟨names, named, pieces_joinWith some_name fun name member => (solid name member).2⟩

theorem read?_eq (list : String) : read? list = union? (filledPieces list) := by
  have emptiness (cs : List Char) : (!cs.isEmpty) = (String.ofList cs != "") := by
    rw [Bool.eq_iff_iff, bne_iff_ne, ne_eq, ← String.toList_inj, String.toList_ofList]
    simp
  rw [read?, filledPieces, pieces, List.filter_map]
  simp only [Function.comp_def, emptiness]

theorem read?_of_display? {text : String} (shown : display? states = some text) :
    read? text = some (states &&& all) := by
  obtain ⟨names, named, rfl⟩ := Option.map_eq_some_iff.mp shown
  obtain ⟨some_name, read, solid⟩ := names?_sound named
  rw [read?_eq, filledPieces_joinWith some_name solid, read]

theorem solid_display? {text : String} (shown : display? states = some text) : Solid text := by
  obtain ⟨names, named, rfl⟩ := Option.map_eq_some_iff.mp shown
  obtain ⟨some_name, -, solid⟩ := names?_sound named
  exact solid_joinWith some_name fun name member => (solid name member).1

theorem read?_display? (listed : Listed states) (some_state : states ≠ 0) :
    ∃ text, display? states = some text ∧ read? text = some states := by
  obtain ⟨names, named⟩ := names?_listed listed some_state
  have shown : display? states = some (joinWith "," names) := by rw [display?, named]; rfl
  have read := read?_of_display? shown
  rw [within_all listed] at read
  exact ⟨_, shown, read⟩

theorem display?_zero : display? 0 = none := by
  decide

theorem display?_and_all (states : UInt32) : display? (states &&& all) = display? states := by
  have same (t : StateTable) : cover t (states &&& all) = cover t states := by
    simp [cover, UInt32.and_assoc]
  simp only [display?, names?, same]

theorem listed_display? {text : String} (shown : display? states = some text) :
    Listed (states &&& all) := by
  exact listed_union? (read?_of_display? shown)

theorem listed_read? {list : String} (read : read? list = some states) : Listed states :=
  listed_union? read

end FilterRecord.StateTable
