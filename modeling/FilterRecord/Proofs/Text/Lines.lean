/- Proofs/Text/Lines
   digest: The lines of a text, and the fields that blanks set apart. -/

import FilterRecord.Proofs.Text.Words

set_option autoImplicit false
set_option relaxedAutoImplicit false

namespace FilterRecord.Text

variable {cs word lead rest : List Char} {c : Char} {fields : List (List Char)}

/-! ## Lines -/

private theorem split_append_cons {isSeparator : Char → Bool} (separates : isSeparator c = true)
    (cs rest : List Char) :
    split isSeparator (cs ++ c :: rest) = split isSeparator cs ++ split isSeparator rest := by
  induction cs with
  | nil => simp [split, separates]
  | cons d cs ih =>
    rw [List.cons_append, split, split]
    split
    · rw [ih, List.cons_append]
    · obtain ⟨first, others, pieces⟩ :=
        List.exists_cons_of_ne_nil (split_ne_nil isSeparator cs)
      rw [ih, pieces, List.cons_append, List.modifyHead_cons, List.modifyHead_cons,
        List.cons_append]

theorem lines_append (cs rest : List Char) :
    lines (cs ++ '\n' :: rest) = lines (cs ++ ['\n']) ++ lines rest := by
  have ended : split (· == '\n') (cs ++ ['\n']) = split (· == '\n') cs ++ [[]] :=
    @split_append_cons '\n' (· == '\n') rfl cs []
  have whole : split (· == '\n') (cs ++ '\n' :: rest) =
      split (· == '\n') cs ++ split (· == '\n') rest :=
    @split_append_cons '\n' (· == '\n') rfl cs rest
  obtain ⟨full, last, pieces⟩ : ∃ full last, split (· == '\n') rest = full ++ [last] :=
    ⟨_, _, (List.dropLast_append_getLast (split_ne_nil _ rest)).symm⟩
  rw [pieces, ← List.append_assoc] at whole
  unfold lines
  rw [ended, whole, pieces]
  simp

/-- The lines of a text in order. A line feed ends a line, alone or with a carriage return before
it; what is left after the last line feed is a line if it has a character. -/
inductive Lines : List Char → List (List Char) → Prop
  | none : Lines [] []
  | last {line : List Char} (some_char : line ≠ []) (plain : '\n' ∉ line) : Lines line [line]
  | feed {line rest : List Char} {others : List (List Char)} (plain : '\n' ∉ line)
    (no_return : line.getLast? ≠ some '\r') (tail : Lines rest others) :
    Lines (line ++ '\n' :: rest) (line :: others)
  | returned {line rest : List Char} {others : List (List Char)} (plain : '\n' ∉ line)
    (tail : Lines rest others) : Lines (line ++ '\r' :: '\n' :: rest) (line :: others)

private theorem clean_of_plain {line : List Char} (plain : '\n' ∉ line) :
    ∀ c ∈ line, (c == '\n') = false := by
  intro c member
  refine beq_eq_false_iff_ne.mpr fun feed => ?_
  exact plain (feed ▸ member)

theorem lines_feed {line : List Char} (plain : '\n' ∉ line) :
    lines (line ++ '\n' :: rest) = dropReturn line :: lines rest := by
  have pieces : split (· == '\n') (line ++ ['\n']) = [line, []] := by
    rw [split_append (clean_of_plain plain)]
    simp [split]
  rw [lines_append, lines, pieces]
  rfl

theorem dropReturn_eq_self {line : List Char} (no_return : line.getLast? ≠ some '\r') :
    dropReturn line = line := by
  unfold dropReturn
  split
  · contradiction
  · rfl

theorem dropReturn_concat (line : List Char) : dropReturn (line ++ ['\r']) = line := by
  simp [dropReturn]

theorem lines_returned {line : List Char} (plain : '\n' ∉ line) :
    lines (line ++ '\r' :: '\n' :: rest) = line :: lines rest := by
  have longer : '\n' ∉ line ++ ['\r'] := by simpa using plain
  have text : line ++ '\r' :: '\n' :: rest = (line ++ ['\r']) ++ '\n' :: rest := by simp
  rw [text, lines_feed longer, dropReturn_concat]

private theorem Lines.lines_eq {rows : List (List Char)} (parts : Lines cs rows) :
    lines cs = rows := by
  induction parts with
  | none => rfl
  | last some_char plain =>
    rw [lines, split_of_clean (clean_of_plain plain)]
    simp [some_char]
  | @feed line rest others plain no_return _ ih =>
    rw [lines_feed plain, dropReturn_eq_self no_return, ih]
  | @returned line rest others plain _ ih => rw [lines_returned plain, ih]

private theorem exists_lines (cs : List Char) : ∃ rows, Lines cs rows := by
  by_cases feed : '\n' ∈ cs
  · obtain ⟨line, rest, text, plain⟩ := List.eq_append_cons_of_mem feed
    have shorter : rest.length < cs.length := by
      rw [text, List.length_append, List.length_cons]
      omega
    obtain ⟨others, tail⟩ := exists_lines rest
    by_cases marked : line.getLast? = some '\r'
    · obtain ⟨start, rfl⟩ := List.getLast?_eq_some_iff.mp marked
      have inner : '\n' ∉ start := fun member => plain (by simp [member])
      rw [text, List.append_assoc]
      exact ⟨start :: others, .returned inner tail⟩
    · rw [text]
      exact ⟨line :: others, .feed plain marked tail⟩
  · cases cs with
    | nil => exact ⟨[], .none⟩
    | cons c cs => exact ⟨[c :: cs], .last (by simp) feed⟩
termination_by cs.length

theorem lines_eq_iff {rows : List (List Char)} : lines cs = rows ↔ Lines cs rows := by
  refine ⟨fun read => ?_, Lines.lines_eq⟩
  obtain ⟨found, parts⟩ := exists_lines cs
  rwa [← read, parts.lines_eq]

example : lines "a\r\n\nb\r".toList = [['a'], [], ['b', '\r']] := by decide

/-! ## Fields -/

def Blank (cs : List Char) : Prop := ∀ c ∈ cs, isBlank c = true

def Word (cs : List Char) : Prop := cs ≠ [] ∧ ∀ c ∈ cs, isBlank c = false

/-- The fields of a text in order, set apart by blanks. -/
inductive Fields : List Char → List (List Char) → Prop
  | none {lead : List Char} (blank : Blank lead) : Fields lead []
  | last {lead word : List Char} (blank : Blank lead) (field : Word word) :
    Fields (lead ++ word) [word]
  | more {lead word rest : List Char} {c : Char} {others : List (List Char)} (blank : Blank lead)
    (field : Word word) (ends : isBlank c = true) (tail : Fields (c :: rest) others) :
    Fields (lead ++ (word ++ c :: rest)) (word :: others)

private theorem words_blank_append (blank : Blank lead) : words (lead ++ cs) = words cs := by
  induction lead with
  | nil => rfl
  | cons d lead ih =>
    have first : isBlank d = true := blank d (by simp)
    rw [List.cons_append, words, split, if_pos first, List.filter_cons_of_neg (by simp), ← words,
      ih fun c member => blank c (by simp [member])]

private theorem words_word (field : Word word) : words word = [word] := by
  simp [words, split_of_clean field.2, field.1]

private theorem words_word_append (field : Word word) (ends : isBlank c = true) :
    words (word ++ c :: rest) = word :: words (c :: rest) := by
  simp [words, split_append field.2, split, ends, field.1]

private theorem Fields.words_eq (parts : Fields cs fields) : words cs = fields := by
  induction parts with
  | @none lead blank =>
    have nothing : words ([] : List Char) = [] := rfl
    rw [← List.append_nil lead, words_blank_append blank, nothing]
  | last blank field => rw [words_blank_append blank, words_word field]
  | more blank field ends _ ih =>
    rw [words_blank_append blank, words_word_append field ends, ih]

private theorem head_dropWhile {p : Char → Bool} (left : cs.dropWhile p = c :: rest) :
    p c = false := by
  have stop := List.head?_dropWhile_not p cs
  rwa [left] at stop

private theorem exists_fields (cs : List Char) : ∃ fields, Fields cs fields := by
  have blank : Blank (cs.takeWhile isBlank) := fun _ => List.mem_takeWhile_imp
  have text : cs.takeWhile isBlank ++ cs.dropWhile isBlank = cs := List.takeWhile_append_dropWhile
  cases body : cs.dropWhile isBlank with
  | nil =>
    rw [body, List.append_nil] at text
    exact ⟨[], text ▸ .none blank⟩
  | cons d inner =>
    have field : Word (d :: inner.takeWhile (!isBlank ·)) := by
      refine ⟨by simp, fun c member => ?_⟩
      rcases List.mem_cons.mp member with rfl | member
      · exact head_dropWhile body
      · simpa using List.mem_takeWhile_imp member
    have rest : inner.takeWhile (!isBlank ·) ++ inner.dropWhile (!isBlank ·) = inner :=
      List.takeWhile_append_dropWhile
    cases left : inner.dropWhile (!isBlank ·) with
    | nil =>
      rw [left, List.append_nil] at rest
      have whole := Fields.last blank field
      rw [rest, ← body, text] at whole
      exact ⟨_, whole⟩
    | cons c others =>
      have shorter : (c :: others).length < cs.length := by
        have cut := congrArg List.length text
        have within := congrArg List.length rest
        simp only [body, left, List.length_append, List.length_cons] at cut within ⊢
        omega
      obtain ⟨fields, tail⟩ := exists_fields (c :: others)
      have ends : isBlank c = true := by simpa using head_dropWhile left
      have whole := Fields.more blank field ends tail
      rw [List.cons_append, ← left, rest, ← body, text] at whole
      exact ⟨_, whole⟩
termination_by cs.length

theorem words_eq_iff : words cs = fields ↔ Fields cs fields := by
  refine ⟨fun read => ?_, Fields.words_eq⟩
  obtain ⟨found, parts⟩ := exists_fields cs
  rwa [← read, parts.words_eq]

theorem words_append_cons (ends : isBlank c = true) (cs rest : List Char) :
    words (cs ++ c :: rest) = words cs ++ words rest := by
  rw [words, split_append_cons ends, List.filter_append, ← words, ← words]

theorem words_trimStart (cs : List Char) : words (trimStart cs) = words cs := by
  have blank : Blank (cs.takeWhile isBlank) := fun _ => List.mem_takeWhile_imp
  have text : cs.takeWhile isBlank ++ trimStart cs = cs := List.takeWhile_append_dropWhile
  rw [← words_blank_append blank, text]

theorem Fields.exists_trimStart (parts : Fields cs (word :: fields)) :
    ∃ rest, trimStart cs = word ++ rest := by
  have trimmed {lead word : List Char} (blank : Blank lead) (field : Word word)
      (rest : List Char) : trimStart (lead ++ (word ++ rest)) = word ++ rest := by
    obtain ⟨d, inner, rfl⟩ := List.exists_cons_of_ne_nil field.1
    have inked : isBlank d ≠ true := by simp [field.2 d (by simp)]
    rw [trimStart, List.dropWhile_append_of_pos blank, List.cons_append,
      List.dropWhile_cons_of_neg inked]
  cases parts with
  | last blank field => exact ⟨[], by simpa using trimmed blank field []⟩
  | more blank field _ _ => exact ⟨_, trimmed blank field _⟩

end FilterRecord.Text
