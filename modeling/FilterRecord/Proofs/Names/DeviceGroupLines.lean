/- Proofs/Names/DeviceGroupLines
   digest: Which texts write a map of device groups, what the map is, and which line a fault is in. -/

import Mathlib.Data.List.ReduceOption
import FilterRecord.Names.DeviceGroups
import FilterRecord.Proofs.Outcome
import FilterRecord.Proofs.Text.NumeralGrammar
import FilterRecord.Proofs.Text.Separated

set_option autoImplicit false
set_option relaxedAutoImplicit false

namespace FilterRecord.DeviceGroups

open Text
open Numeral (Writes)

/-- A line that says nothing: it is blank, or only a comment. -/
inductive Silent : List Char → Prop
  | blank {line : List Char} (blank : Blank line) : Silent line
  | comment {lead text : List Char} (blank : Blank lead) : Silent (lead ++ '#' :: text)

/-- What a line gives: nothing, or the group that its first two fields give. -/
inductive Gives (line : List Char) : Option (UInt32 × String) → Prop
  | silent (silent : Silent line) : Gives line none
  | group {number name : List Char} {others : List (List Char)} (id : UInt32)
    (fields : Fields line (number :: name :: others)) (writes : Writes number id.toNat) :
    Gives line (some (id, String.ofList name))

/-- What is wrong with a line that should give a group. -/
inductive Faulty (line : List Char) : Defect → Prop
  | fields {field : List Char} (told : ¬ Silent line) (fields : Fields line [field]) :
    Faulty line .fields
  | badId {number name : List Char} {others : List (List Char)} (told : ¬ Silent line)
    (fields : Fields line (number :: name :: others))
    (unread : ∀ id : UInt32, ¬ Writes number id.toNat) :
    Faulty line (.badId (String.ofList number))

variable {line : List Char} {group : Option (UInt32 × String)} {defect : Defect}

/-! ## One line -/

theorem silent_iff : Silent line ↔
    ((trimStart line).isEmpty || (trimStart line).head? = some '#') = true := by
  rw [Bool.or_eq_true, List.isEmpty_iff, decide_eq_true_eq, ← comment_iff]
  constructor
  · intro silent
    cases silent with
    | blank blank => exact .inl (List.dropWhile_eq_nil_iff.mpr blank)
    | comment blank => exact .inr (.mk blank)
  · rintro (nothing | ⟨⟨blank⟩⟩)
    · exact .blank (List.dropWhile_eq_nil_iff.mp nothing)
    · exact .comment blank

theorem not_silent {number : List Char} {n : Nat} {others : List (List Char)}
    (fields : Fields line (number :: others)) (writes : Writes number n) : ¬ Silent line := by
  obtain ⟨rest, shape⟩ := fields.exists_trimStart
  obtain ⟨d, digits, rfl⟩ := List.exists_cons_of_ne_nil writes.ne_nil
  have alphanum : d.isAlphanum = true := writes.isAlphanum d (by simp)
  rw [silent_iff, shape]
  have plain : d ≠ '#' := by
    rintro rfl
    exact absurd alphanum (by decide)
  simp [plain]

theorem readLine_eq_ok_iff : readLine line = .ok group ↔ Gives line group := by
  constructor
  · intro read
    unfold readLine at read
    dsimp only at read
    split at read
    · rename_i silent
      cases read
      exact .silent (silent_iff.mpr silent)
    · rw [words_trimStart] at read
      split at read
      · rename_i number name others cut
        split at read
        · rename_i id found
          cases read
          exact .group id (words_eq_iff.mp cut) (Numeral.word32?_eq_some_iff.mp found)
        · cases read
      · cases read
  · intro gives
    unfold readLine
    dsimp only
    cases gives with
    | silent silent => rw [if_pos (silent_iff.mp silent)]
    | group id fields writes =>
      rw [if_neg (mt silent_iff.mpr (not_silent fields writes)), words_trimStart,
        words_eq_iff.mpr fields]
      simp only [Numeral.word32?_eq_some_iff.mpr writes]

theorem readLine_eq_error_iff : readLine line = .error defect ↔ Faulty line defect := by
  constructor
  · intro read
    unfold readLine at read
    dsimp only at read
    split at read
    · cases read
    · rename_i told
      rw [words_trimStart] at read
      split at read
      · rename_i number name others cut
        split at read
        · cases read
        · rename_i unread
          cases read
          refine .badId (mt silent_iff.mp told) (words_eq_iff.mp cut) fun id writes => ?_
          rw [Numeral.word32?_eq_some_iff.mpr writes] at unread
          cases unread
      · rename_i few
        cases read
        cases cut : words line with
        | nil =>
          cases words_eq_iff.mp cut with
          | none blank => exact absurd (silent_iff.mp (.blank blank)) told
        | cons field others =>
          cases others with
          | nil => exact .fields (mt silent_iff.mp told) (words_eq_iff.mp cut)
          | cons second others => exact (few _ _ _ cut).elim
  · intro faulty
    unfold readLine
    dsimp only
    cases faulty with
    | fields told fields =>
      rw [if_neg (mt silent_iff.mpr told), words_trimStart, words_eq_iff.mpr fields]
    | badId told fields unread =>
      rw [if_neg (mt silent_iff.mpr told), words_trimStart, words_eq_iff.mpr fields]
      dsimp only
      split
      · rename_i id found
        exact absurd (Numeral.word32?_eq_some_iff.mp found) (unread id)
      · rfl

/-! ## All lines -/

variable {number : Nat} {rows : List (List Char)}

theorem readLines_cons_error {defect : Defect} (fault : readLine line = .error defect)
    (rest : List (List Char)) : readLines number (line :: rest) = .error ⟨number, defect⟩ := by
  rw [readLines, fault]

theorem readLines_cons_ok {group : Option (UInt32 × String)} (read : readLine line = .ok group)
    (rest : List (List Char)) : readLines number (line :: rest) =
      (readLines (number + 1) rest).map (group.toList ++ ·) := by
  rw [readLines, read]
  cases readLines (number + 1) rest <;> rfl

theorem readLines_eq_ok_iff {groups : List (UInt32 × String)} :
    readLines number rows = .ok groups ↔
      ∃ given, List.Forall₂ Gives rows given ∧ groups = given.reduceOption := by
  induction rows generalizing number groups with
  | nil => simp [readLines, eq_comm]
  | cons line rest ih =>
    constructor
    · intro read
      unfold readLines at read
      split at read
      · cases read
      · rename_i group first
        split at read
        · cases read
        · rename_i others later
          cases read
          obtain ⟨given, all, rfl⟩ := ih.mp later
          refine ⟨group :: given, .cons (readLine_eq_ok_iff.mp first) all, ?_⟩
          cases group <;> rfl
    · rintro ⟨given, all, rfl⟩
      cases all with
      | @cons _ group _ others first all =>
        have later : readLines (number + 1) rest = .ok others.reduceOption :=
          ih.mpr ⟨others, all, rfl⟩
        simp only [readLines, readLine_eq_ok_iff.mpr first, later]
        cases group <;> rfl

theorem readLines_eq_error_iff {fault : LineFault} :
    readLines number rows = .error fault ↔
      ∃ before line after, rows = before ++ line :: after ∧
        (∀ earlier ∈ before, ∃ group, Gives earlier group) ∧ Faulty line fault.defect ∧
        fault.line = number + before.length := by
  induction rows generalizing number with
  | nil => simp [readLines]
  | cons line rest ih =>
    constructor
    · intro read
      unfold readLines at read
      split at read
      · rename_i defect first
        cases read
        exact ⟨[], line, rest, rfl, by simp, readLine_eq_error_iff.mp first, rfl⟩
      · rename_i group first
        split at read
        · rename_i later
          cases read
          obtain ⟨before, bad, after, rfl, good, faulty, place⟩ := ih.mp later
          refine ⟨line :: before, bad, after, rfl, ?_, faulty, ?_⟩
          · exact List.forall_mem_cons.mpr ⟨⟨group, readLine_eq_ok_iff.mp first⟩, good⟩
          · rw [place, List.length_cons]
            omega
        · cases read
    · rintro ⟨before, bad, after, shape, good, faulty, place⟩
      cases before with
      | nil =>
        obtain ⟨rfl, rfl⟩ := List.cons.inj shape
        simp only [readLines, readLine_eq_error_iff.mpr faulty]
        rw [List.length_nil, Nat.add_zero] at place
        rw [← place]
      | cons earlier before =>
        obtain ⟨same, tail⟩ := List.cons.inj shape
        obtain ⟨⟨group, first⟩, others⟩ := List.forall_mem_cons.mp good
        have later : readLines (number + 1) rest = .error fault := by
          refine ih.mpr ⟨before, bad, after, tail, others, faulty, ?_⟩
          rw [place, List.length_cons]
          omega
        simp only [readLines, same, readLine_eq_ok_iff.mpr first, later]

/-! ## Texts one after the other -/

/-- What two texts give together: the groups of both, or the fault of the first that has one. Lines
of the second are counted on from those of the first. -/
def joined (before : Nat) :
    Except LineFault DeviceGroups → Except LineFault DeviceGroups → Except LineFault DeviceGroups
  | .error fault, _ => .error fault
  | .ok _, .error fault => .error ⟨before + fault.line, fault.defect⟩
  | .ok first, .ok second => .ok ⟨first.entries ++ second.entries⟩

private theorem readLines_add (before number : Nat) (rows : List (List Char)) :
    readLines (before + number) rows =
      (readLines number rows).mapError fun fault => ⟨before + fault.line, fault.defect⟩ := by
  induction rows generalizing number with
  | nil => rfl
  | cons line rest ih =>
    rw [readLines, readLines, Nat.add_assoc, ih]
    cases readLine line with
    | error defect => rfl
    | ok group => cases readLines (number + 1) rest <;> rfl

private theorem readLines_append (number : Nat) (rows others : List (List Char)) :
    readLines number (rows ++ others) = readLines number rows >>= fun groups =>
      (readLines (rows.length + number) others).map (groups ++ ·) := by
  induction rows generalizing number with
  | nil =>
    rw [List.nil_append, List.length_nil, Nat.zero_add, readLines]
    cases readLines number others <;> rfl
  | cons line rest ih =>
    have counted : (line :: rest).length + number = rest.length + (number + 1) := by
      rw [List.length_cons]
      omega
    rw [List.cons_append, readLines, readLines, ih, counted]
    cases readLine line with
    | error defect => rfl
    | ok group =>
      cases readLines (number + 1) rest with
      | error fault => rfl
      | ok groups =>
        cases readLines (rest.length + (number + 1)) others with
        | error fault => rfl
        | ok more => simp [bind, Except.bind, Except.map, List.append_assoc]

/-- Texts of which the first ends with a line feed give together what they give one by one. -/
theorem ofText_append (first second : String) : ofText (first ++ "\n" ++ second) =
    joined (lines (first ++ "\n").toList).length (ofText (first ++ "\n")) (ofText second) := by
  have text : (first ++ "\n" ++ second).toList = first.toList ++ '\n' :: second.toList := by simp
  have ended : (first ++ "\n").toList = first.toList ++ ['\n'] := by simp
  unfold ofText
  rw [text, ended, lines_append, readLines_append, readLines_add]
  cases readLines 1 (lines (first.toList ++ ['\n'])) with
  | error fault => rfl
  | ok groups => cases readLines 1 (lines second.toList) <;> rfl

/-! ## Look-ups -/

variable {groups : DeviceGroups} {name : String} {id : UInt32}

private theorem find?_key_eq_some_iff {κ : Type} [DecidableEq κ] (key : UInt32 × String → κ)
    {entries : List (UInt32 × String)} {wanted : κ} {entry : UInt32 × String} :
    entries.find? (key · == wanted) = some entry ↔ key entry = wanted ∧
      ∃ before after, entries = before ++ entry :: after ∧
        ∀ earlier ∈ before, key earlier ≠ wanted := by
  rw [List.find?_eq_some_iff_append, beq_iff_eq]
  simp only [Bool.not_eq_true', beq_eq_false_iff_ne]

theorem idOf?_eq_some_iff : groups.idOf? name = some id ↔
    ∃ before after, groups.entries = before ++ (id, name) :: after ∧
      ∀ entry ∈ before, entry.2 ≠ name := by
  rw [idOf?, Option.map_eq_some_iff]
  constructor
  · rintro ⟨⟨_, _⟩, search, rfl⟩
    obtain ⟨rfl, first⟩ := (find?_key_eq_some_iff (·.2)).mp search
    exact first
  · intro first
    exact ⟨(id, name), (find?_key_eq_some_iff (·.2)).mpr ⟨rfl, first⟩, rfl⟩

theorem nameOf?_eq_some_iff : groups.nameOf? id = some name ↔
    ∃ before after, groups.entries = before ++ (id, name) :: after ∧
      ∀ entry ∈ before, entry.1 ≠ id := by
  rw [nameOf?, Option.map_eq_some_iff]
  constructor
  · rintro ⟨⟨_, _⟩, search, rfl⟩
    obtain ⟨rfl, first⟩ := (find?_key_eq_some_iff (·.1)).mp search
    exact first
  · intro first
    exact ⟨(id, name), (find?_key_eq_some_iff (·.1)).mpr ⟨rfl, first⟩, rfl⟩

/-! ## Maps -/

theorem ofText_eq_ok_iff {text : String} : ofText text = .ok groups ↔
    ∃ rows given, Lines text.toList rows ∧ List.Forall₂ Gives rows given ∧
      groups.entries = given.reduceOption := by
  rw [ofText, map_eq_ok_iff]
  constructor
  · rintro ⟨entries, read, rfl⟩
    obtain ⟨given, all, same⟩ := readLines_eq_ok_iff.mp read
    exact ⟨_, given, lines_eq_iff.mp rfl, all, same⟩
  · rintro ⟨rows, given, cut, all, same⟩
    rw [lines_eq_iff.mpr cut]
    exact ⟨groups.entries, readLines_eq_ok_iff.mpr ⟨given, all, same⟩, rfl⟩

theorem exists_line {text : String} (read : ofText text = .ok groups) {entry : UInt32 × String}
    (member : entry ∈ groups.entries) : ∃ line ∈ lines text.toList, Gives line (some entry) := by
  obtain ⟨rows, given, cut, all, shape⟩ := ofText_eq_ok_iff.mp read
  rw [shape, List.reduceOption, List.mem_filterMap] at member
  obtain ⟨group, listed, same⟩ := member
  obtain ⟨i, within, place⟩ := List.getElem_of_mem listed
  have row : i < rows.length := all.length_eq ▸ within
  have gives := all.get row within
  rw [List.get_eq_getElem, List.get_eq_getElem, place] at gives
  cases same
  rw [lines_eq_iff.mpr cut]
  exact ⟨_, List.getElem_mem row, gives⟩

theorem ofText_eq_error_iff {text : String} {fault : LineFault} : ofText text = .error fault ↔
    ∃ before line after, Lines text.toList (before ++ line :: after) ∧
      (∀ earlier ∈ before, ∃ group, Gives earlier group) ∧ Faulty line fault.defect ∧
      fault.line = before.length + 1 := by
  rw [ofText, map_eq_error_iff, readLines_eq_error_iff]
  simp only [lines_eq_iff, Nat.add_comm 1]

/-- A text writes a map when every line gives a group or nothing, and the map has these groups in
the order of the lines; a look-up finds the first of them. Otherwise the first faulty line is told
by its number, with what is wrong there: its id when it has two fields. The map of a text that
ends with a line feed goes on with what follows. -/
theorem maps_read_exactly :
    (∀ text groups, ofText text = .ok groups ↔
      ∃ rows given, Lines text.toList rows ∧ List.Forall₂ Gives rows given ∧
        groups.entries = given.reduceOption) ∧
    (∀ text fault, ofText text = .error fault ↔
      ∃ before line after, Lines text.toList (before ++ line :: after) ∧
        (∀ earlier ∈ before, ∃ group, Gives earlier group) ∧ Faulty line fault.defect ∧
        fault.line = before.length + 1) ∧
    (∀ number id, LineFault.message ⟨number, .badId id⟩ =
      "line " ++ Numeral.decimal number ++ ": bad id \"" ++ id ++ "\"") ∧
    (∀ number, LineFault.message ⟨number, .fields⟩ =
      "line " ++ Numeral.decimal number ++ ": expected \"<id> <name>\"") ∧
    (∀ (groups : DeviceGroups) name id, groups.idOf? name = some id ↔
      ∃ before after, groups.entries = before ++ (id, name) :: after ∧
        ∀ entry ∈ before, entry.2 ≠ name) ∧
    (∀ (groups : DeviceGroups) name id, groups.nameOf? id = some name ↔
      ∃ before after, groups.entries = before ++ (id, name) :: after ∧
        ∀ entry ∈ before, entry.1 ≠ id) ∧
    ∀ first second, ofText (first ++ "\n" ++ second) =
      joined (lines (first ++ "\n").toList).length (ofText (first ++ "\n")) (ofText second) := by
  refine ⟨fun _ _ => ofText_eq_ok_iff, fun _ _ => ofText_eq_error_iff, fun number id => ?_,
    fun number => ?_, fun _ _ _ => idOf?_eq_some_iff, fun _ _ _ => nameOf?_eq_some_iff,
    ofText_append⟩
  · have marks : ": " ++ "bad id \"" = ": bad id \"" := rfl
    simp only [LineFault.message, ← marks, String.append_assoc]
  · have marks : ": " ++ "expected \"<id> <name>\"" = ": expected \"<id> <name>\"" := rfl
    simp only [LineFault.message, ← marks, String.append_assoc]

end FilterRecord.DeviceGroups
