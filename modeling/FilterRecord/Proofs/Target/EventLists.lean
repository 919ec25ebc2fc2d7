/- Proofs/Target/EventLists
   digest: Lists of events are read exactly, and shown again in the order of their table. -/

import FilterRecord.Target.ConnTrack
import FilterRecord.Proofs.Target.Events

set_option autoImplicit false
set_option relaxedAutoImplicit false

namespace FilterRecord.EventTable

open Text

def tables : List EventTable := [connection, expectation]

def names (t : EventTable) : List String := t.map (·.1)

def named (t : EventTable) (given : List String) : EventTable :=
  t.filter fun row => given.any (row.1 == ·)

/-- The first of some names that a table does not have. -/
def FirstUnknown (t : EventTable) (given : List String) (name : String) : Prop :=
  ∃ before after, given = before ++ name :: after ∧ (∀ n ∈ before, n ∈ t.names) ∧ name ∉ t.names

/-- A table has no name twice, and each of its events has a bit, which no other has. -/
structure Distinct (t : EventTable) : Prop where
  once : t.names.Nodup
  filled : ∀ row ∈ t, row.2 ≠ 0
  apart : ∀ a ∈ t, ∀ b ∈ t, a.1 ≠ b.1 → a.2 &&& b.2 = 0

theorem sound_of_mem : ∀ t ∈ tables, t.Sound := by
  intro t known
  rcases List.mem_pair.mp known with rfl | rfl
  · exact sound_connection
  · exact sound_expectation

theorem single_of_mem : ∀ t ∈ tables, t.Single := by
  intro t known
  rcases List.mem_pair.mp known with rfl | rfl
  · exact single_connection
  · exact single_expectation

theorem distinct_of_mem : ∀ t ∈ tables, t.Distinct := by
  intro t known
  rcases List.mem_pair.mp known with rfl | rfl
  · exact ⟨by decide, by decide, by decide⟩
  · exact ⟨by decide, by decide, by decide⟩

variable {t : EventTable} {given : List String} {name : String} {bits : UInt32}

theorem bit?_eq_none_iff : t.bit? name = none ↔ name ∉ t.names := by
  rw [bit?, Option.map_eq_none_iff, List.find?_eq_none, names, List.mem_map]
  simp only [beq_iff_eq, not_exists, not_and]

theorem mem_names_of_bit? (found : t.bit? name = some bits) : name ∈ t.names := by
  by_contra absent
  rw [bit?_eq_none_iff.mpr absent] at found
  cases found

private theorem bitsOf_named_cons (sound : t.Sound) (found : t.bit? name = some bits) :
    bitsOf (t.named (name :: given)) = bits ||| bitsOf (t.named given) := by
  obtain ⟨row, search, rfl⟩ := Option.map_eq_some_iff.mp found
  have own := List.find?_some search
  refine bitsOf_filter_cons (List.mem_of_find?_eq_some search) own (fun other listed same => ?_) _
  have here : other.1 = name := beq_iff_eq.mp same
  have bit := sound.found other listed
  rw [here, found] at bit
  exact Prod.ext (here.trans (beq_iff_eq.mp own).symm) (Option.some.inj bit).symm

theorem union_eq_ok_iff (sound : t.Sound) :
    t.union given = .ok bits ↔ (∀ n ∈ given, n ∈ t.names) ∧ bits = bitsOf (t.named given) := by
  induction given generalizing bits with
  | nil => simp [union, named, eq_comm]
  | cons name rest ih =>
    rw [List.forall_mem_cons]
    cases found : t.bit? name with
    | none => simp [union, found, bit?_eq_none_iff.mp found]
    | some own =>
      rw [union, found, bitsOf_named_cons sound found]
      simp only [map_eq_ok_iff, ih, mem_names_of_bit? found, true_and]
      constructor
      · rintro ⟨_, ⟨all, rfl⟩, rfl⟩
        exact ⟨all, rfl⟩
      · rintro ⟨all, rfl⟩
        exact ⟨_, ⟨all, rfl⟩, rfl⟩

theorem firstUnknown_cons {first : String} : t.FirstUnknown (first :: given) name ↔
    (first ∉ t.names ∧ first = name) ∨ (first ∈ t.names ∧ t.FirstUnknown given name) := by
  constructor
  · rintro ⟨before, after, cut, all, unknown⟩
    cases before with
    | nil =>
      obtain ⟨rfl, -⟩ := List.cons.inj cut
      exact .inl ⟨unknown, rfl⟩
    | cons n before =>
      obtain ⟨rfl, rest⟩ := List.cons.inj cut
      obtain ⟨known, others⟩ := List.forall_mem_cons.mp all
      exact .inr ⟨known, before, after, rest, others, unknown⟩
  · rintro (⟨unknown, rfl⟩ | ⟨known, before, after, rfl, all, unknown⟩)
    · exact ⟨[], given, rfl, by simp, unknown⟩
    · exact ⟨first :: before, after, rfl, List.forall_mem_cons.mpr ⟨known, all⟩, unknown⟩

theorem union_eq_error_iff : t.union given = .error name ↔ t.FirstUnknown given name := by
  induction given with
  | nil => simp [union, FirstUnknown]
  | cons first rest ih =>
    rw [union, firstUnknown_cons]
    cases found : t.bit? first with
    | none => simp [bit?_eq_none_iff.mp found]
    | some own => simp [map_eq_error_iff, ih, mem_names_of_bit? found]

theorem namesOf_named (distinct : t.Distinct) :
    t.namesOf (bitsOf (t.named given)) = t.names.filter given.contains := by
  have shown : ∀ row ∈ t,
      (bitsOf (t.named given) &&& row.2 != 0) = given.contains row.1 := by
    intro row known
    rw [← List.any_beq]
    cases listed : given.any (row.1 == ·) with
    | true =>
      have member : row ∈ t.named given := List.mem_filter.mpr ⟨known, listed⟩
      rw [bitsOf_and_of_mem member]
      exact bne_iff_ne.mpr (distinct.filled row known)
    | false =>
      have outside : row.2 &&& bitsOf (t.named given) = 0 := by
        refine and_bitsOf_eq_zero fun other member => ?_
        obtain ⟨listed', own⟩ := List.mem_filter.mp member
        refine distinct.apart row known other listed' fun same => ?_
        rw [← same, listed] at own
        cases own
      rw [UInt32.and_comm, outside]
      rfl
  rw [namesOf, List.filter_congr shown, names, List.filter_map]
  rfl

/-- A list is read where its table has each of its pieces, and then as the events of all, whatever
their order and however often they come; else it is refused over the first piece that the table
does not have. The events of a list are shown by the names in it, each once and in the order of the
table, and this reads back. So does what shows any bits that have a name, as those that do. -/
theorem read_canonical (t : EventTable) (known : t ∈ tables) :
    (∀ list bits, t.read list = .ok bits ↔
      (∀ name ∈ pieces list, name ∈ t.names) ∧ bits = bitsOf (t.named (pieces list))) ∧
    (∀ list name, t.read list = .error name ↔ t.FirstUnknown (pieces list) name) ∧
    (∀ list name o, t.read list = .error name →
      ConnTrack.readEvents t o list = .error (o.badValue (unknown name))) ∧
    (∀ list other bits, (∀ name, name ∈ pieces other ↔ name ∈ pieces list) →
      t.read list = .ok bits → t.read other = .ok bits) ∧
    (∀ list bits, t.read list = .ok bits →
      let shown := t.names.filter (pieces list).contains
      t.display bits = joinWith "," shown ∧ shown.Nodup ∧
        (∀ name, name ∈ shown ↔ name ∈ pieces list) ∧ t.read (t.display bits) = .ok bits) ∧
    (∀ bits, bits &&& bitsOf t ≠ 0 → t.read (t.display bits) = .ok (bits &&& bitsOf t)) := by
  have sound := sound_of_mem t known
  have distinct := distinct_of_mem t known
  have accepted {list : String} {bits : UInt32} : t.read list = .ok bits ↔
      (∀ name ∈ pieces list, name ∈ t.names) ∧ bits = bitsOf (t.named (pieces list)) :=
    union_eq_ok_iff sound
  refine ⟨fun _ _ => accepted, fun _ _ => union_eq_error_iff, ?_, ?_, ?_, ?_⟩
  · intro list name o refused
    rw [ConnTrack.readEvents, refused]
  · intro list other bits same read
    obtain ⟨all, rfl⟩ := accepted.mp read
    refine accepted.mpr ⟨fun name member => all name ((same name).mp member), ?_⟩
    have rows : t.named (pieces list) = t.named (pieces other) :=
      List.filter_congr fun row _ => by simp only [List.any_beq, List.contains_eq_mem, same]
    rw [rows]
  · intro list bits read
    have whole := composed_union sound read
    obtain ⟨all, rfl⟩ := accepted.mp read
    refine ⟨?_, distinct.once.filter _, fun name => ?_,
      read_display sound whole (ne_zero_of_read distinct.filled read)⟩
    · rw [display, namesOf_named distinct]
    · rw [List.mem_filter, List.contains_iff_mem]
      exact ⟨And.right, fun member => ⟨all name member, member⟩⟩
  · intro bits some_event
    rw [← display_and_bitsOf sound]
    exact read_display sound (composed_and_bitsOf (single_of_mem t known) bits) some_event

theorem read_canonical_mark : connection.read "mark,new,mark" = .ok 0x81 ∧
    connection.display 0x81 = "new,mark" ∧ connection.read "mark,,new" = .error "" := by
  obtain ⟨accepted, refused, -, -, shown, -⟩ := read_canonical connection (by decide)
  have read : connection.read "mark,new,mark" = .ok 0x81 :=
    (accepted _ _).mpr ⟨by decide, by decide⟩
  refine ⟨read, (shown _ _ read).1.trans (by decide), (refused _ _).mpr ?_⟩
  exact ⟨["mark"], ["new"], by decide, by decide, by decide⟩

end FilterRecord.EventTable
