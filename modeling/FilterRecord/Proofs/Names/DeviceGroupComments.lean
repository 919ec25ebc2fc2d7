/- Proofs/Names/DeviceGroupComments
   digest: What comments at the ends of lines do to the map of device groups. -/

import FilterRecord.Proofs.Names.DeviceGroupLines

set_option autoImplicit false
set_option relaxedAutoImplicit false

namespace FilterRecord.DeviceGroups

open Text
open Numeral (Writes)

/-- The text of a comment, which stays on its line. -/
structure Note where
  text : List Char
  one_line : '\n' ∉ text

/-- Comments for some lines, by the numbers of the lines. -/
abbrev Notes := Nat → Option Note

def comment : Option Note → List Char
  | none => []
  | some note => ' ' :: '#' :: note.text

/-- The rest of a text from a line on, with a comment at the end of each line that has one. What
follows the last line ending is a line when it has begun. -/
def annotateFrom (notes : Notes) (number : Nat) (begun : Bool) : List Char → List Char
  | [] => if begun then comment (notes number) else []
  | '\n' :: rest => comment (notes number) ++ '\n' :: annotateFrom notes (number + 1) false rest
  | '\r' :: '\n' :: rest =>
    comment (notes number) ++ '\r' :: '\n' :: annotateFrom notes (number + 1) false rest
  | c :: rest => c :: annotateFrom notes number true rest

def annotate (notes : Notes) (text : String) : String :=
  String.ofList (annotateFrom notes 1 false text.toList)

variable {notes : Notes} {number : Nat} {begun : Bool} {line rest : List Char}

/-! ## The lines of a text with comments -/

theorem annotateFrom_append (plain : '\n' ∉ line)
    (no_ending : line.getLast? = some '\r' → rest.head? ≠ some '\n') :
    annotateFrom notes number begun (line ++ rest) =
      line ++ annotateFrom notes number (begun || !line.isEmpty) rest := by
  induction line generalizing begun with
  | nil => simp
  | cons c line ih =>
    have inner : '\n' ∉ line := fun member => plain (List.mem_cons_of_mem c member)
    have no_feed : c ≠ '\n' := fun feed => plain (feed ▸ List.mem_cons_self)
    have no_inner_ending : line.getLast? = some '\r' → rest.head? ≠ some '\n' := by
      intro last
      refine no_ending ?_
      rw [List.getLast?_cons, last, Option.getD_some]
    have no_return : ∀ tail, c = '\r' → line ++ rest ≠ '\n' :: tail := by
      rintro tail rfl ending
      cases line with
      | nil => exact no_ending rfl (by rw [← List.nil_append rest, ending, List.head?_cons])
      | cons d line => exact inner ((List.cons.inj ending).1 ▸ List.mem_cons_self)
    rw [List.cons_append, annotateFrom.eq_4 _ _ _ _ _ no_feed no_return,
      ih inner no_inner_ending]
    simp

/-- A line of a text, and the line that stands in its place in a text with comments. -/
inductive Noted (line : List Char) : Option Note → List Char → Prop
  | plain : Noted line none line
  | comment {note : Note} (text : List Char) : Noted line (some note) (line ++ ' ' :: '#' :: text)

inductive NotedFrom (notes : Notes) : Nat → List (List Char) → List (List Char) → Prop
  | nil {number : Nat} : NotedFrom notes number [] []
  | cons {number : Nat} {line line' : List Char} {rest rest' : List (List Char)}
    (first : Noted line (notes number) line') (later : NotedFrom notes (number + 1) rest rest') :
    NotedFrom notes number (line :: rest) (line' :: rest')

theorem noted_comment (line : List Char) (note : Option Note) :
    Noted line note (line ++ comment note) := by
  cases note with
  | none => simpa [comment] using Noted.plain
  | some note => exact .comment note.text

theorem plain_comment (plain : '\n' ∉ line) (note : Option Note) :
    '\n' ∉ line ++ comment note := by
  cases note with
  | none => simpa [comment] using plain
  | some note => simp [comment, plain, note.one_line]

/-- A return at the end of a comment is lost to the line ending, with nothing of the line itself. -/
theorem noted_dropReturn (no_return : line.getLast? ≠ some '\r') (note : Option Note) :
    Noted line note (dropReturn (line ++ comment note)) := by
  by_cases marked : (line ++ comment note).getLast? = some '\r'
  · obtain ⟨start, whole⟩ := List.getLast?_eq_some_iff.mp marked
    cases note with
    | none =>
      rw [comment, List.append_nil] at marked
      exact absurd marked no_return
    | some note =>
      -- the return is in the text of the comment, since it is not its mark
      rcases List.eq_nil_or_concat note.text with nothing | ⟨text, last, shape⟩
      · rw [comment, nothing] at marked
        simp at marked
      · have cut : line ++ comment (some note) = (line ++ ' ' :: '#' :: text) ++ [last] := by
          simp [comment, shape]
        obtain ⟨rfl, same⟩ := List.append_inj' (cut.symm.trans whole) rfl
        rw [whole, dropReturn_concat]
        exact .comment text
  · rw [dropReturn_eq_self marked]
    exact noted_comment line note

theorem notedFrom_lines (cs : List Char) (number : Nat) :
    NotedFrom notes number (lines cs) (lines (annotateFrom notes number false cs)) := by
  generalize cut : lines cs = rows
  rw [lines_eq_iff] at cut
  induction cut generalizing number with
  | none => exact .nil
  | @last line some_char plain =>
    have text : annotateFrom notes number false line = line ++ comment (notes number) := by
      have whole := @annotateFrom_append notes number false line [] plain (by simp)
      simpa [annotateFrom, some_char] using whole
    have rows := lines_eq_iff.mpr (.last (by simp [some_char]) (plain_comment plain (notes number)))
    rw [text, rows]
    exact .cons (noted_comment line _) .nil
  | @feed line rest others plain no_return _ ih =>
    have text := @annotateFrom_append notes number false line ('\n' :: rest) plain
      (fun last => absurd last no_return)
    rw [text, annotateFrom, ← List.append_assoc, lines_feed (plain_comment plain (notes number))]
    exact .cons (noted_dropReturn no_return _) (ih (number + 1))
  | @returned line rest others plain _ ih =>
    have text := @annotateFrom_append notes number false line ('\r' :: '\n' :: rest) plain
      (by simp)
    rw [text, annotateFrom, ← List.append_assoc,
      lines_returned (plain_comment plain (notes number))]
    exact .cons (noted_comment line _) (ih (number + 1))

/-! ## One line with a comment -/

theorem silent_comment_iff (line text : List Char) :
    Silent (line ++ ' ' :: '#' :: text) ↔ Silent line := by
  have mark : trimStart (' ' :: '#' :: text) = '#' :: text := rfl
  rw [silent_iff, silent_iff, trimStart, List.dropWhile_append, ← trimStart, ← trimStart, mark]
  cases trimStart line <;> simp

theorem exists_fields_comment {fields : List (List Char)} (parts : Fields line fields)
    (text : List Char) : ∃ name others,
      Fields (line ++ ' ' :: '#' :: text) (fields ++ ('#' :: name) :: others) := by
  obtain ⟨name, others, cut⟩ : ∃ name others, words ('#' :: text) = ('#' :: name) :: others := by
    obtain ⟨first, more, pieces⟩ := List.exists_cons_of_ne_nil (split_ne_nil isBlank text)
    refine ⟨first, more.filter (!·.isEmpty), ?_⟩
    have mark : isBlank '#' ≠ true := by decide
    rw [words, split, if_neg mark, pieces, List.modifyHead_cons,
      List.filter_cons_of_pos (by simp)]
  refine ⟨name, others, words_eq_iff.mp ?_⟩
  rw [words_append_cons rfl, words_eq_iff.mpr parts, cut]

/-- What a line of one field is read as once a comment follows the field. -/
inductive Absorbs : Except Defect (Option (UInt32 × String)) → Prop
  | group (id : UInt32) (name : List Char) : Absorbs (.ok (some (id, String.ofList ('#' :: name))))
  | badId (field : String) : Absorbs (.error (.badId field))

theorem readLine_comment (line text : List Char) :
    readLine line ≠ .error .fields ∧
      readLine (line ++ ' ' :: '#' :: text) = readLine line ∨
    readLine line = .error .fields ∧ Absorbs (readLine (line ++ ' ' :: '#' :: text)) := by
  cases read : readLine line with
  | ok group =>
    refine .inl ⟨nofun, ?_⟩
    cases readLine_eq_ok_iff.mp read with
    | silent silent =>
      exact readLine_eq_ok_iff.mpr (.silent ((silent_comment_iff line text).mpr silent))
    | group id fields writes =>
      obtain ⟨name, others, longer⟩ := exists_fields_comment fields text
      exact readLine_eq_ok_iff.mpr (.group id longer writes)
  | error defect =>
    cases readLine_eq_error_iff.mp read with
    | badId told fields unread =>
      obtain ⟨name, others, longer⟩ := exists_fields_comment fields text
      have told_again := mt (silent_comment_iff line text).mp told
      exact .inl ⟨nofun, readLine_eq_error_iff.mpr (.badId told_again longer unread)⟩
    | @fields field told fields =>
      refine .inr ⟨rfl, ?_⟩
      obtain ⟨name, others, longer⟩ := exists_fields_comment fields text
      have told_again := mt (silent_comment_iff line text).mp told
      by_cases numeral : ∃ id : UInt32, Writes field id.toNat
      · obtain ⟨id, writes⟩ := numeral
        rw [readLine_eq_ok_iff.mpr (.group id longer writes)]
        exact .group id name
      · rw [readLine_eq_error_iff.mpr (.badId told_again longer (not_exists.mp numeral))]
        exact .badId _

theorem readLine_noted {line' : List Char} {note : Option Note} (noted : Noted line note line') :
    (readLine line = .error .fields → note = none) ∧ readLine line' = readLine line ∨
    note ≠ none ∧ readLine line = .error .fields ∧ Absorbs (readLine line') := by
  cases noted with
  | plain => exact .inl ⟨fun _ => rfl, rfl⟩
  | comment text =>
    rcases readLine_comment line text with ⟨no_fault, same⟩ | ⟨fault, absorbs⟩
    · exact .inl ⟨fun fault => absurd fault no_fault, same⟩
    · exact .inr ⟨nofun, fault, absorbs⟩

/-! ## All lines with comments -/

def Marked (name : String) : Prop := name.toList.head? = some '#'

theorem marked_ofList (name : List Char) : Marked (String.ofList ('#' :: name)) := by
  rw [Marked, String.toList_ofList, List.head?_cons]

/-- What is read instead of the fault that a line has too few fields. -/
structure Hidden (number : Nat) (outcome : Except LineFault (List (UInt32 × String))) : Prop where
  no_fault : outcome ≠ .error ⟨number, .fields⟩
  marked {groups : List (UInt32 × String)} (read : outcome = .ok groups) :
    ∃ entry ∈ groups, Marked entry.2

theorem Hidden.before {outcome : Except LineFault (List (UInt32 × String))}
    (hidden : Hidden number outcome) (group : Option (UInt32 × String)) :
    Hidden number (outcome.map (group.toList ++ ·)) where
  no_fault stop := hidden.no_fault (map_eq_error_iff.mp stop)
  marked read := by
    obtain ⟨groups, found, rfl⟩ := map_eq_ok_iff.mp read
    obtain ⟨entry, member, marked⟩ := hidden.marked found
    exact ⟨entry, List.mem_append_right _ member, marked⟩

variable {rows rows' : List (List Char)}

private theorem number_le_line {fault : LineFault}
    (read : readLines number rows = .error fault) : number ≤ fault.line := by
  obtain ⟨before, _, _, _, _, _, place⟩ := readLines_eq_error_iff.mp read
  omega

/-- Comments leave the reading of lines as it is, unless the first fault is a line of one field
that has a comment. -/
theorem readLines_noted (noted : NotedFrom notes number rows rows') :
    (∀ place, readLines number rows = .error ⟨place, .fields⟩ → notes place = none) ∧
      readLines number rows' = readLines number rows ∨
    ∃ place, notes place ≠ none ∧ readLines number rows = .error ⟨place, .fields⟩ ∧
      Hidden place (readLines number rows') := by
  induction noted with
  | nil => exact .inl ⟨nofun, rfl⟩
  | @cons number line line' rest rest' first later ih =>
    rcases readLine_noted first with ⟨plain, same⟩ | ⟨marked, fault, absorbs⟩
    · cases read : readLine line with
      | error defect =>
        rw [readLines_cons_error read, readLines_cons_error (same.trans read)]
        refine .inl ⟨fun place stop => ?_, rfl⟩
        cases stop
        exact plain read
      | ok group =>
        rw [readLines_cons_ok read, readLines_cons_ok (same.trans read)]
        rcases ih with ⟨plain, same⟩ | ⟨place, marked, fault, hidden⟩
        · refine .inl ⟨fun place stop => plain place (map_eq_error_iff.mp stop), ?_⟩
          rw [same]
        · exact .inr ⟨place, marked, map_eq_error_iff.mpr fault, hidden.before group⟩
    · refine .inr ⟨number, marked, readLines_cons_error fault rest, ?_⟩
      generalize read : readLine line' = outcome at absorbs
      cases absorbs with
      | badId field =>
        rw [readLines_cons_error read]
        exact ⟨nofun, nofun⟩
      | group id name =>
        rw [readLines_cons_ok read]
        refine ⟨fun stop => ?_, fun ended => ?_⟩
        · have below := number_le_line (map_eq_error_iff.mp stop)
          exact absurd below (Nat.not_succ_le_self number)
        · obtain ⟨groups, _, rfl⟩ := map_eq_ok_iff.mp ended
          exact ⟨_, List.mem_cons_self, marked_ofList name⟩

/-! ## Texts with comments -/

/-- What comments do to a text: nothing, or they hide a fault. -/
theorem ofText_annotate (notes : Notes) (text : String) :
    (∀ line, ofText text = .error ⟨line, .fields⟩ → notes line = none) ∧
      ofText (annotate notes text) = ofText text ∨
    ∃ line, notes line ≠ none ∧ ofText text = .error ⟨line, .fields⟩ ∧
      ofText (annotate notes text) ≠ .error ⟨line, .fields⟩ ∧
      ∀ groups, ofText (annotate notes text) = .ok groups →
        ∃ entry ∈ groups.entries, Marked entry.2 := by
  have noted : NotedFrom notes 1 (lines text.toList) (lines (annotate notes text).toList) := by
    rw [annotate, String.toList_ofList]
    exact notedFrom_lines text.toList 1
  unfold ofText
  rcases readLines_noted noted with ⟨plain, same⟩ | ⟨line, marked, fault, hidden⟩
  · refine .inl ⟨fun line stop => plain line (map_eq_error_iff.mp stop), ?_⟩
    rw [same]
  · refine .inr ⟨line, marked, map_eq_error_iff.mpr fault,
      fun stop => hidden.no_fault (map_eq_error_iff.mp stop), fun groups read => ?_⟩
    obtain ⟨entries, found, rfl⟩ := map_eq_ok_iff.mp read
    exact hidden.marked found

private theorem exists_given {rows : List (List Char)} {given : List (Option (UInt32 × String))}
    (all : List.Forall₂ Gives rows given) (listed : line ∈ rows) :
    ∃ group ∈ given, Gives line group := by
  induction all with
  | nil => cases listed
  | cons first _ ih =>
    rcases List.mem_cons.mp listed with rfl | later
    · exact ⟨_, List.mem_cons_self, first⟩
    · obtain ⟨group, member, gives⟩ := ih later
      exact ⟨group, List.mem_cons_of_mem _ member, gives⟩

/-- A map has a group whose name starts like a comment just where the second field of a line
does. -/
theorem marked_iff {text : String} {groups : DeviceGroups} (read : ofText text = .ok groups) :
    (∃ entry ∈ groups.entries, Marked entry.2) ↔
      ∃ rows, Lines text.toList rows ∧ ∃ line ∈ rows, ¬ Silent line ∧
        ∃ number name others, Fields line (number :: ('#' :: name) :: others) := by
  constructor
  · rintro ⟨entry, member, marked⟩
    obtain ⟨line, listed, gives⟩ := exists_line read member
    refine ⟨_, lines_eq_iff.mp rfl, line, listed, ?_⟩
    cases gives with
    | @group number name others id fields writes =>
      obtain ⟨rest, rfl⟩ : ∃ rest, name = '#' :: rest := by
        rw [Marked, String.toList_ofList] at marked
        exact List.head?_eq_some_iff.mp marked
      exact ⟨not_silent fields writes, number, rest, others, fields⟩
  · rintro ⟨rows, cut, line, listed, told, number, name, others, fields⟩
    obtain ⟨found, given, cut_again, all, shape⟩ := ofText_eq_ok_iff.mp read
    obtain rfl : found = rows := (lines_eq_iff.mpr cut_again).symm.trans (lines_eq_iff.mpr cut)
    obtain ⟨group, member, gives⟩ := exists_given all listed
    cases gives with
    | silent silent => exact absurd silent told
    | group id own writes =>
      have same := (words_eq_iff.mpr own).symm.trans (words_eq_iff.mpr fields)
      obtain ⟨rfl, rfl, rfl⟩ : _ ∧ _ ∧ _ := by simpa using same
      refine ⟨(id, _), ?_, marked_ofList name⟩
      rw [shape]
      exact List.mem_filterMap.mpr ⟨_, member, rfl⟩

/-- Comments at the ends of lines leave the map of a text, or its fault, as it was exactly when the
fault is not that a line with such a comment has a single field. There the mark of the comment is
taken for the name: the fault is no longer told, and a map then has a group whose name starts like
a comment. A group has such a name just where the second field of a line does. -/
theorem comments_kept_iff (notes : Notes) (text : String) :
    (ofText (annotate notes text) = ofText text ↔
      ∀ line, ofText text = .error ⟨line, .fields⟩ → notes line = none) ∧
    (∀ line, notes line ≠ none → ofText text = .error ⟨line, .fields⟩ →
      ofText (annotate notes text) ≠ .error ⟨line, .fields⟩ ∧
      ∀ groups, ofText (annotate notes text) = .ok groups →
        ∃ entry ∈ groups.entries, Marked entry.2) ∧
    ∀ groups, ofText text = .ok groups → ((∃ entry ∈ groups.entries, Marked entry.2) ↔
      ∃ rows, Lines text.toList rows ∧ ∃ line ∈ rows, ¬ Silent line ∧
        ∃ number name others, Fields line (number :: ('#' :: name) :: others)) := by
  refine ⟨?_, ?_, fun groups read => marked_iff read⟩
  · rcases ofText_annotate notes text with ⟨plain, same⟩ | ⟨line, marked, fault, changed, _⟩
    · exact ⟨fun _ => plain, fun _ => same⟩
    · refine ⟨fun same => absurd (same.trans fault) changed, fun plain => ?_⟩
      exact absurd (plain line fault) marked
  · intro line marked fault
    rcases ofText_annotate notes text with ⟨plain, _⟩ | ⟨place, _, stop, changed, named⟩
    · exact absurd (plain line fault) marked
    · rw [fault] at stop
      cases stop
      exact ⟨changed, named⟩

/-- The mark of a comment is taken for a name. -/
theorem comments_hide_fault :
    let notes : Notes := fun line => if line = 1 then some ⟨[' ', 'c'], by decide⟩ else none
    annotate notes "7\n" = "7 # c\n" ∧ ofText "7\n" = .error ⟨1, .fields⟩ ∧
    ofText (annotate notes "7\n") = .ok ⟨[(7, "#")]⟩ := by
  decide

end FilterRecord.DeviceGroups
