/- Proofs/Target/Events
   digest: The list that shows a set of events is read back as the set. -/

import FilterRecord.Target.Events
import FilterRecord.Proofs.Mask.Bits
import FilterRecord.Proofs.Outcome
import FilterRecord.Proofs.Text.Words

set_option autoImplicit false
set_option relaxedAutoImplicit false

namespace FilterRecord.EventTable

open Text

/-- Each name finds its own row, the rows are apart, and no name can be taken for two. -/
structure Sound (t : EventTable) : Prop where
  found : ∀ row ∈ t, t.bit? row.1 = some row.2
  covered : ∀ row ∈ t, row.2 &&& bitsOf t = row.2
  apart : ∀ a ∈ t, ∀ b ∈ t, Whole a.2 b
  solid : ∀ row ∈ t, Solid row.1 ∧ ',' ∉ row.1.toList

/-- A set of events that some list of names writes. -/
structure Composed (t : EventTable) (bits : UInt32) : Prop where
  within : bits &&& bitsOf t = bits
  whole : ∀ row ∈ t, Whole bits row

theorem sound_connection : connection.Sound where
  found := by decide
  covered := by decide
  apart := by decide
  solid := by decide

theorem sound_expectation : expectation.Sound where
  found := by decide
  covered := by decide
  apart := by decide
  solid := by decide

variable {t : EventTable} {bits : UInt32}

private theorem mem_of_bit? {name : String} (found : t.bit? name = some bits) :
    ∃ row ∈ t, row.2 = bits := by
  obtain ⟨row, search, rfl⟩ := Option.map_eq_some_iff.mp found
  exact ⟨row, List.mem_of_find?_eq_some search, rfl⟩

theorem composed_union (sound : t.Sound) {names : List String}
    (read : t.union names = .ok bits) : t.Composed bits := by
  induction names generalizing bits with
  | nil =>
    cases read
    exact ⟨by simp, fun row _ => .inl (by simp)⟩
  | cons name rest ih =>
    unfold union at read
    split at read
    · exact absurd read (by simp)
    · rename_i own found
      obtain ⟨row, member, rfl⟩ := mem_of_bit? found
      cases others : t.union rest with
      | error e => exact absurd read (by simp [others, Except.map])
      | ok remaining =>
        rw [others] at read
        cases read
        have tail := ih others
        refine ⟨?_, fun other known => whole_or (sound.apart row member other known)
          (tail.whole other known)⟩
        rw [or_and_distrib, sound.covered row member, tail.within]

theorem ne_zero_of_read (filled : ∀ row ∈ t, row.2 ≠ 0) {list : String}
    (read : t.read list = .ok bits) : bits ≠ 0 := by
  unfold EventTable.read at read
  cases pieces : split (· == ',') list.toList with
  | nil => exact absurd pieces (split_ne_nil _ _)
  | cons first rest =>
    rw [pieces, List.map_cons] at read
    unfold union at read
    split at read
    · exact absurd read (by simp)
    · rename_i own found
      obtain ⟨row, member, rfl⟩ := mem_of_bit? found
      obtain ⟨remaining, -, rfl⟩ := map_eq_ok_iff.mp read
      intro none
      exact filled row member (UInt32.or_eq_zero_iff.mp none).1

private theorem bitsOf_filter {rows : List (String × UInt32)}
    (whole : ∀ row ∈ rows, Whole bits row) :
    bitsOf (rows.filter fun row => bits &&& row.2 != 0) = bits &&& bitsOf rows := by
  induction rows with
  | nil => simp [bitsOf]
  | cons row rows ih =>
    have tail := ih fun other known => whole other (by simp [known])
    rw [bitsOf_cons, and_or_distrib, ← tail]
    rcases whole row (by simp) with outside | inside
    · simp [outside]
    · by_cases empty : row.2 = 0
      · simp [empty]
      · have met : bits &&& row.2 ≠ 0 := by rwa [inside]
        rw [List.filter_cons_of_pos (by simpa using met), inside]
        rfl

private theorem union_rows {rows : List (String × UInt32)}
    (found : ∀ row ∈ rows, t.bit? row.1 = some row.2) :
    t.union (rows.map (·.1)) = .ok (bitsOf rows) := by
  induction rows with
  | nil => rfl
  | cons row rows ih =>
    have tail := ih fun other known => found other (by simp [known])
    simp only [List.map_cons, union, found row (by simp), tail, Except.map]
    rfl

private theorem union_namesOf (sound : t.Sound) (composed : t.Composed bits) :
    t.union (t.namesOf bits) = .ok bits := by
  rw [namesOf, union_rows fun row known => sound.found row (List.mem_of_mem_filter known),
    bitsOf_filter composed.whole, composed.within]

private theorem namesOf_ne_nil (sound : t.Sound) (composed : t.Composed bits)
    (some_event : bits ≠ 0) : t.namesOf bits ≠ [] := by
  intro none
  have read := union_namesOf sound composed
  rw [none] at read
  cases read
  exact some_event rfl

private theorem solid_namesOf (sound : t.Sound) {name : String} (shown : name ∈ t.namesOf bits) :
    Solid name ∧ ',' ∉ name.toList := by
  obtain ⟨row, known, rfl⟩ := List.mem_map.mp shown
  exact sound.solid row (List.mem_of_mem_filter known)

theorem read_eq (t : EventTable) (list : String) : t.read list = t.union (pieces list) := rfl

theorem read_display (sound : t.Sound) (composed : t.Composed bits) (some_event : bits ≠ 0) :
    t.read (t.display bits) = .ok bits := by
  have names := pieces_joinWith (namesOf_ne_nil sound composed some_event)
    fun name shown => (solid_namesOf sound shown).2
  rw [read_eq, display, names, union_namesOf sound composed]

theorem solid_display (sound : t.Sound) (composed : t.Composed bits) (some_event : bits ≠ 0) :
    Solid (t.display bits) :=
  solid_joinWith (namesOf_ne_nil sound composed some_event)
    fun _ shown => (solid_namesOf sound shown).1

private theorem namesOf_zero (t : EventTable) : t.namesOf 0 = [] := by
  simp [namesOf]

/-- Events without a name show nowhere. -/
theorem display_and_bitsOf (sound : t.Sound) (bits : UInt32) :
    t.display (bits &&& bitsOf t) = t.display bits := by
  have same : ∀ row ∈ t, (bits &&& bitsOf t &&& row.2 != 0) = (bits &&& row.2 != 0) := by
    intro row known
    rw [UInt32.and_assoc, UInt32.and_comm (bitsOf t), sound.covered row known]
  rw [display, display, namesOf, namesOf, List.filter_congr same]

theorem and_bitsOf_ne_zero (sound : t.Sound) (shown : t.display bits ≠ "") :
    bits &&& bitsOf t ≠ 0 := by
  intro none
  rw [← display_and_bitsOf sound, none, display, namesOf_zero] at shown
  exact shown rfl

def Single (t : EventTable) : Prop :=
  ∀ row ∈ t, ∃ k : Fin 32, row.2.toBitVec = BitVec.twoPow 32 k.val

instance (t : EventTable) : Decidable t.Single :=
  inferInstanceAs (Decidable (∀ row ∈ t, _))

theorem single_connection : connection.Single := by
  decide

theorem single_expectation : expectation.Single := by
  decide

theorem composed_and_bitsOf (one : t.Single) (bits : UInt32) :
    t.Composed (bits &&& bitsOf t) where
  within := by rw [UInt32.and_assoc, UInt32.and_self]
  whole row known := by
    obtain ⟨_, bit⟩ := one row known
    exact whole_of_one_bit bit _

theorem unbroken_display (sound : t.Sound) (bits : UInt32) : Unbroken (t.display bits) := by
  by_cases none : t.namesOf bits = []
  · rw [display, none]
    decide
  · exact (solid_joinWith none fun _ shown => (solid_namesOf sound shown).1).2

end FilterRecord.EventTable
