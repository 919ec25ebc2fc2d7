/- Proofs/Text/Separated
   digest: A text without the blanks around it, comments, and the pieces between separators. -/

import FilterRecord.Proofs.Text.Lines

set_option autoImplicit false
set_option relaxedAutoImplicit false

namespace FilterRecord.Text

variable {cs body lead trail : List Char} {c : Char} {pieces : List (List Char)}

/-! ## Blanks around a text -/

/-- A text between blanks that neither starts nor ends with a blank itself. -/
inductive Trimmed (body : List Char) : List Char → Prop
  | mk {lead trail : List Char} (before : Blank lead) (after : Blank trail)
    (starts : ∀ c, body.head? = some c → isBlank c = false)
    (ends : ∀ c, body.getLast? = some c → isBlank c = false) :
    Trimmed body (lead ++ (body ++ trail))

theorem trimStart_append (blank : Blank lead) : trimStart (lead ++ cs) = trimStart cs :=
  List.dropWhile_append_of_pos blank

private theorem trimStart_of_starts (starts : ∀ c, cs.head? = some c → isBlank c = false) :
    trimStart cs = cs := by
  cases cs with
  | nil => rfl
  | cons c cs =>
    have inked : isBlank c ≠ true := by simp [starts c rfl]
    rw [trimStart, List.dropWhile_cons_of_neg inked]

private theorem starts_trimStart (cs : List Char) :
    ∀ c, (trimStart cs).head? = some c → isBlank c = false := by
  intro c first
  have stop := List.head?_dropWhile_not isBlank cs
  rwa [← trimStart, first] at stop

private theorem exists_lead (cs : List Char) : ∃ lead, Blank lead ∧ lead ++ trimStart cs = cs :=
  ⟨cs.takeWhile isBlank, fun _ => List.mem_takeWhile_imp, List.takeWhile_append_dropWhile⟩

private theorem reverse_trimEnd (cs : List Char) : (trimEnd cs).reverse = trimStart cs.reverse :=
  List.reverse_reverse _

private theorem exists_trail (cs : List Char) :
    ∃ trail, Blank trail ∧ trimEnd cs ++ trail = cs := by
  obtain ⟨lead, blank, whole⟩ := exists_lead cs.reverse
  refine ⟨lead.reverse, fun c member => blank c (List.mem_reverse.mp member), ?_⟩
  rw [← List.reverse_inj, List.reverse_append, List.reverse_reverse, reverse_trimEnd, whole]

private theorem trimEnd_append (blank : Blank trail)
    (ends : ∀ c, cs.getLast? = some c → isBlank c = false) : trimEnd (cs ++ trail) = cs := by
  have backwards : Blank trail.reverse := fun c member => blank c (List.mem_reverse.mp member)
  have starts : ∀ c, cs.reverse.head? = some c → isBlank c = false := by
    rwa [List.head?_reverse]
  rw [← List.reverse_inj, reverse_trimEnd, List.reverse_append, trimStart_append backwards,
    trimStart_of_starts starts]

private theorem Trimmed.trim_eq (shape : Trimmed body cs) : trim cs = body := by
  obtain @⟨lead, trail, before, after, starts, ends⟩ := shape
  rw [trim, trimStart_append before]
  cases body with
  | nil =>
    have nothing : trimStart trail = [] := by
      rw [← List.append_nil trail, trimStart_append after]
      rfl
    rw [List.nil_append, nothing]
    rfl
  | cons d inner => rw [trimStart_of_starts (by simpa using starts), trimEnd_append after ends]

private theorem trimmed_trim (cs : List Char) : Trimmed (trim cs) cs := by
  obtain ⟨lead, before, whole⟩ := exists_lead cs
  obtain ⟨trail, after, body⟩ := exists_trail (trimStart cs)
  have starts : ∀ c, (trim cs).head? = some c → isBlank c = false := by
    intro c first
    have within : (trim cs ++ trail).head? = some c := by rw [List.head?_append, first]; rfl
    rw [trim, body] at within
    exact starts_trimStart cs c within
  have ends : ∀ c, (trim cs).getLast? = some c → isBlank c = false := by
    intro c last
    rw [← List.head?_reverse, trim, reverse_trimEnd] at last
    exact starts_trimStart _ c last
  have shape : Trimmed (trim cs) (lead ++ (trim cs ++ trail)) := .mk before after starts ends
  rwa [trim, body, whole, ← trim] at shape

theorem trim_eq_iff : trim cs = body ↔ Trimmed body cs :=
  ⟨fun cut => cut ▸ trimmed_trim cs, Trimmed.trim_eq⟩

/-! ## Comments -/

/-- A line whose first character that is not blank starts a comment. -/
inductive Comment : List Char → Prop
  | mk {lead text : List Char} (blank : Blank lead) : Comment (lead ++ '#' :: text)

theorem trimStart_comment {text : List Char} (blank : Blank lead) :
    trimStart (lead ++ '#' :: text) = '#' :: text := by
  have mark : isBlank '#' ≠ true := by decide
  rw [trimStart_append blank, trimStart, List.dropWhile_cons_of_neg mark]

theorem comment_iff : Comment cs ↔ (trimStart cs).head? = some '#' := by
  constructor
  · rintro ⟨blank⟩
    rw [trimStart_comment blank, List.head?_cons]
  · intro first
    obtain ⟨text, shape⟩ := List.head?_eq_some_iff.mp first
    obtain ⟨lead, blank, whole⟩ := exists_lead cs
    rw [← whole, shape]
    exact .mk blank

/-! ## Pieces -/

/-- The pieces of a text in order, set apart by a character that is in none of them. -/
inductive Separated (c : Char) : List Char → List (List Char) → Prop
  | last {piece : List Char} (plain : c ∉ piece) : Separated c piece [piece]
  | more {piece rest : List Char} {others : List (List Char)} (plain : c ∉ piece)
    (tail : Separated c rest others) : Separated c (piece ++ c :: rest) (piece :: others)

private theorem beq_of_plain {piece : List Char} (plain : c ∉ piece) :
    ∀ d ∈ piece, (d == c) = false := by
  intro d member
  exact beq_eq_false_iff_ne.mpr (ne_of_mem_of_not_mem member plain)

private theorem Separated.split_eq (parts : Separated c cs pieces) :
    split (· == c) cs = pieces := by
  induction parts with
  | last plain => exact split_of_clean (beq_of_plain plain)
  | @more piece rest others plain _ ih =>
    have separator : split (· == c) (c :: rest) = [] :: others := by
      rw [split, if_pos (beq_self_eq_true c), ih]
    rw [split_append (beq_of_plain plain), separator]
    simp

private theorem exists_separated (c : Char) (cs : List Char) :
    ∃ pieces, Separated c cs pieces := by
  induction cs with
  | nil => exact ⟨[[]], .last List.not_mem_nil⟩
  | cons d cs ih =>
    obtain ⟨pieces, parts⟩ := ih
    by_cases separator : c = d
    · rw [← separator]
      exact ⟨[] :: pieces, .more List.not_mem_nil parts⟩
    · cases parts with
      | last plain => exact ⟨_, .last (List.not_mem_cons_of_ne_of_not_mem separator plain)⟩
      | more plain tail =>
        exact ⟨_, .more (List.not_mem_cons_of_ne_of_not_mem separator plain) tail⟩

theorem split_eq_iff : split (· == c) cs = pieces ↔ Separated c cs pieces := by
  refine ⟨fun cut => ?_, Separated.split_eq⟩
  obtain ⟨found, parts⟩ := exists_separated c cs
  rwa [← cut, parts.split_eq]

end FilterRecord.Text
