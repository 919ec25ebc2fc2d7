/- Proofs/Arguments/Accepting
   digest: A text that shows options is accepted only if each of them was read and taken in turn. -/

import FilterRecord.Proofs.Arguments.Writing

set_option autoImplicit false
set_option relaxedAutoImplicit false

namespace FilterRecord

open Text
open Options (Entry Occurrence Operand Register shown)

namespace Grammar

variable {g : Grammar} {seen final : Register} {e : Entry} {inverted : Bool} {rest : List String}

private theorem taken_of_argumentOf {argument : Option String} {taken : Nat}
    (found : g.argumentOf e none rest = .ok (argument, taken)) :
    ∃ later, rest = argument.toList ++ later := by
  unfold argumentOf at found
  split at found
  · split at found
    · rename_i inline
      exact absurd inline (by simp)
    · cases found
      exact ⟨_, rfl⟩
    · cases found
  · split at found
    · cases found
    · cases found
      exact ⟨rest, rfl⟩

private theorem admits_of_ended (legible : g.Legible) (row : e ∈ g.table)
    (ended : (g.readFrom seen inverted (("--" ++ e.name) :: rest)).ending = .ok final) :
    ∃ argument operand later, rest = argument.toList ++ later ∧
      g.Admits seen (g.written e argument operand inverted) := by
  have name : "--" ++ e.name ≠ "!" := by
    intro same
    have first := congrArg (·.toList.head?) same
    simp at first
  rw [readFrom, if_neg name] at ended
  split at ended
  · cases ended
  · rename_i o taken read
    have admitted := admits_of_occurrence read
    obtain ⟨_, inline, argument, operand, entry, -, -, argued, -, rfl⟩ := occurrence_ok read
    rw [entryOf_option legible row] at entry
    cases entry
    obtain ⟨later, cut⟩ := taken_of_argumentOf argued
    exact ⟨argument, operand, later, cut, admitted⟩

end Grammar

namespace Extension

variable {host : Context} {g : Grammar} {seen final : Register} {ext last : Extension} {e : Entry}
  {given : Bool} {rest : List String}

theorem resume_option (inverted : Bool) (legible : g.Legible) (row : e ∈ g.table)
    (accepted : ext.resume host g seen
      ((if inverted then ["!"] else []) ++ ("--" ++ e.name) :: rest) = (last, .ok final)) :
    ∃ argument operand next later, rest = argument.toList ++ later ∧
      g.Admits seen (g.written e argument operand inverted) ∧
      ext.apply host (g.written e argument operand inverted) = (next, .ok ()) ∧
      next.resume host g (seen.add e) later = (last, .ok final) := by
  have ended := (resume_ok_iff.mp accepted).2.1
  have turned : (g.readFrom seen inverted (("--" ++ e.name) :: rest)).ending = .ok final := by
    cases inverted with
    | false => exact ended
    | true =>
      have mark : (if true then ["!"] else []) ++ ("--" ++ e.name) :: rest =
          "!" :: ("--" ++ e.name) :: rest := rfl
      rw [mark, Grammar.readFrom, if_pos rfl, if_neg (by simp)] at ended
      exact ended
  obtain ⟨argument, operand, later, rfl, admitted⟩ := Grammar.admits_of_ended legible row turned
  have words : (if inverted then ["!"] else []) ++ ("--" ++ e.name) :: (argument.toList ++ later) =
      (g.written e argument operand inverted).words ++ later := by
    rw [Occurrence.words, List.append_assoc, List.cons_append]
    rfl
  rw [words] at accepted
  obtain ⟨ran, ended, complete⟩ := resume_ok_iff.mp accepted
  rw [Grammar.readFrom_words legible admitted] at ran ended
  unfold applyAll at ran
  split at ran
  · rename_i next taken
    exact ⟨argument, operand, next, later, rfl, admitted, taken,
      resume_ok_iff.mpr ⟨ran, ended, complete⟩⟩
  · exact absurd ran (by simp)

theorem resume_written (inverted : Bool) (argument : Option String) (rest : List String)
    (legible : g.Legible) (row : e ∈ g.table) (takes : argument.isSome = e.takesArgument)
    (accepted : ext.resume host g seen ((if inverted then ["!"] else []) ++
      ("--" ++ e.name) :: (argument.toList ++ rest)) = (last, .ok final)) :
    ∃ operand next, g.Admits seen (g.written e argument operand inverted) ∧
      ext.apply host (g.written e argument operand inverted) = (next, .ok ()) ∧
      next.resume host g (seen.add e) rest = (last, .ok final) := by
  obtain ⟨found, operand, next, later, cut, admitted, taken, others⟩ :=
    resume_option inverted legible row accepted
  have same : found = argument ∧ later = rest := by
    have both : found.isSome = argument.isSome := admitted.argument.trans takes.symm
    cases found with
    | none =>
      have none : argument = none := by simpa using both.symm
      subst none
      exact ⟨rfl, cut.symm⟩
    | some text =>
      obtain ⟨written, rfl⟩ := Option.isSome_iff_exists.mp both.symm
      obtain ⟨head, tail⟩ := List.cons.inj cut
      exact ⟨congrArg some head.symm, tail.symm⟩
  obtain ⟨rfl, rfl⟩ := same
  exact ⟨operand, next, admitted, taken, others⟩

/-- The words of rows, each shown or not, are accepted only if every row that shows was taken by
some extension on the way. -/
theorem taken_of_rows (Kind : Extension → Prop) {rows : List Entry} {gives turns : Entry → Bool}
    {stated : Entry → Option String} (legible : g.Legible) (within : rows ⊆ g.table)
    (takes : ∀ e ∈ rows, gives e = true → (stated e).isSome = e.takesArgument)
    (kept : ∀ {current next : Extension} {o : Occurrence}, Kind current →
      current.apply host o = (next, .ok ()) → Kind next) (start : Kind ext)
    (accepted : ext.resume host g seen (rows.flatMap (fun e =>
      shown (gives e) (turns e) (("--" ++ e.name) :: (stated e).toList))) = (last, .ok final)) :
    ∀ e ∈ rows, gives e = true → ∃ current operand next before, Kind current ∧
      g.Admits before (g.written e (stated e) operand (turns e)) ∧
      current.apply host (g.written e (stated e) operand (turns e)) = (next, .ok ()) := by
  induction rows generalizing ext seen with
  | nil => simp
  | cons first rest ih =>
    have tail : rest ⊆ g.table := List.subset_of_cons_subset within
    have takes_rest : ∀ e ∈ rest, gives e = true → (stated e).isSome = e.takesArgument :=
      fun e known => takes e (by simp [known])
    rw [List.flatMap_cons] at accepted
    cases shows : gives first with
    | false =>
      have others := ih tail takes_rest start (by simpa [shows, shown] using accepted)
      intro e member yes
      rcases List.mem_cons.mp member with rfl | known
      · exact absurd (shows.symm.trans yes) (by decide)
      · exact others e known yes
    | true =>
      simp only [shows, shown, if_true, List.append_assoc, List.cons_append] at accepted
      obtain ⟨operand, next, admitted, taken, later⟩ :=
        resume_written (turns first) (stated first) _ legible (within (by simp))
          (takes first (by simp) shows) accepted
      intro e member yes
      rcases List.mem_cons.mp member with rfl | known
      · exact ⟨ext, operand, next, seen, start, admitted, taken⟩
      · exact ih tail takes_rest (kept start taken) later e known yes

/-- The tokens of an option with a text, where it shows. An empty text gives no token. -/
def textTokens (given : Entry → Bool) (text : Entry → String) (e : Entry) : List String :=
  (shown (given e) false ["--" ++ e.name, text e]).filter (· != "")

variable {rows : List Entry} {shows : Entry → Bool} {text : Entry → String}

private theorem textTokens_hidden (hidden : shows e = false) : textTokens shows text e = [] := by
  simp [textTokens, hidden, shown]

private theorem textTokens_shown (yes : shows e = true) : textTokens shows text e =
    ("--" ++ e.name) :: ((some (text e)).filter (· != "")).toList := by
  by_cases empty : text e = "" <;> simp [textTokens, yes, shown, empty, Option.filter_some]

private theorem head_textTokens {first : String} {later : List String}
    (cut : rows.flatMap (textTokens shows text) = first :: later) :
    ∃ e ∈ rows, first = "--" ++ e.name := by
  induction rows with
  | nil => cases cut
  | cons row rest ih =>
    rw [List.flatMap_cons] at cut
    cases yes : shows row with
    | false =>
      rw [textTokens_hidden yes] at cut
      obtain ⟨e, known, same⟩ := ih cut
      exact ⟨e, by simp [known], same⟩
    | true =>
      rw [textTokens_shown yes] at cut
      exact ⟨row, by simp, (List.cons.inj cut).1.symm⟩

theorem hidden_of_excluded (legible : g.Legible) (within : rows ⊆ g.table)
    (excluded : ∀ e ∈ rows, ¬ seen.Misses (e.bit ||| e.excluded))
    (accepted : ext.resume host g seen (rows.flatMap (textTokens shows text)) =
      (last, .ok final)) : ∀ e ∈ rows, shows e = false := by
  induction rows with
  | nil => simp
  | cons row rest ih =>
    rw [List.flatMap_cons] at accepted
    cases yes : shows row with
    | false =>
      rw [textTokens_hidden yes] at accepted
      have others := ih (List.subset_of_cons_subset within)
        (fun e known => excluded e (by simp [known])) accepted
      exact List.forall_mem_cons.mpr ⟨yes, others⟩
    | true =>
      rw [textTokens_shown yes] at accepted
      obtain ⟨_, _, _, _, _, admitted, -⟩ :=
        resume_option false legible (within (by simp)) accepted
      exact absurd (Register.check_eq_ok_iff.mp admitted.free) (excluded row (by simp))

/-- In accepted tokens every option that shows has a text. An empty one would leave the option
without an argument, or with the name of the next option, which it must refuse. -/
theorem filled_of_rows (Kind : Extension → Prop) (legible : g.Legible)
    (within : rows ⊆ g.table) (takes : ∀ e ∈ rows, e.takesArgument = true)
    (refuses : ∀ e ∈ rows, shows e = true → text e = "" → ∀ other ∈ rows,
      ∀ {current next : Extension} {before : Register} {operand : Operand}, Kind current →
      g.Admits before (g.written e (some ("--" ++ other.name)) operand false) →
      current.apply host (g.written e (some ("--" ++ other.name)) operand false) ≠
        (next, .ok ()))
    (kept : ∀ {current next : Extension} {o : Occurrence}, Kind current →
      current.apply host o = (next, .ok ()) → Kind next) (start : Kind ext)
    (accepted : ext.resume host g seen (rows.flatMap (textTokens shows text)) =
      (last, .ok final)) : ∀ e ∈ rows, shows e = true → text e ≠ "" := by
  induction rows generalizing ext seen with
  | nil => simp
  | cons row rest ih =>
    have tail {ext : Extension} {seen : Register} (start : Kind ext)
        (accepted : ext.resume host g seen (rest.flatMap (textTokens shows text)) =
          (last, .ok final)) : ∀ e ∈ rest, shows e = true → text e ≠ "" :=
      ih (List.subset_of_cons_subset within) (fun e known => takes e (by simp [known]))
        (fun e known given empty other member => refuses e (by simp [known]) given empty other
          (by simp [member])) start accepted
    rw [List.flatMap_cons] at accepted
    cases yes : shows row with
    | false =>
      rw [textTokens_hidden yes] at accepted
      exact List.forall_mem_cons.mpr
        ⟨fun given => absurd (yes.symm.trans given) (by decide), tail start accepted⟩
    | true =>
      rw [textTokens_shown yes] at accepted
      by_cases empty : text row = ""
      · -- Without its text the option takes the next token, which is the name of a later row.
        simp only [empty, bne_self_eq_false, Option.filter_some, Bool.false_eq_true, if_false,
          Option.toList_none] at accepted
        obtain ⟨argument, operand, next, later, cut, admitted, taken, -⟩ :=
          resume_option false legible (within (by simp)) accepted
        have some_argument : argument.isSome = true :=
          admitted.argument.trans (takes row (by simp))
        obtain ⟨name, rfl⟩ := Option.isSome_iff_exists.mp some_argument
        obtain ⟨other, member, rfl⟩ := head_textTokens cut
        exact absurd taken
          (refuses row (by simp) yes empty other (by simp [member]) start admitted)
      · have filled : (text row != "") = true := bne_iff_ne.mpr empty
        simp only [Option.filter_some, filled, if_true] at accepted
        obtain ⟨operand, next, -, taken, others⟩ := resume_written false
          (some (text row)) _ legible (within (by simp)) (takes row (by simp)).symm accepted
        exact List.forall_mem_cons.mpr ⟨fun _ => empty, tail (kept start taken) others⟩

end Extension

end FilterRecord
