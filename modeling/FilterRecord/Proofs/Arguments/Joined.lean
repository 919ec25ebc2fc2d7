/- Proofs/Arguments/Joined
   digest: An argument in its option's own token means what it means in the next token. -/

import Mathlib.Tactic.Common
import FilterRecord.Proofs.Arguments.Spelling

set_option autoImplicit false
set_option relaxedAutoImplicit false

namespace FilterRecord

open Options (Entry Occurrence Operand Register)

namespace Grammar

/-- Tokens at whose end an option still lacks its argument, so that one more token would be the
argument, whatever it looks like. -/
def Lacks (g : Grammar) (tokens : List String) : Prop :=
  ∃ option, (g.read tokens).ending = .error (.missingArgument g.extension option)

variable {g : Grammar} {seen : Register} {inverted : Bool} {token : String}
  {rest tokens : List String} {e : Entry}

private theorem argumentOf_append {inline : Option String}
    (present : ∀ option, g.argumentOf e inline rest ≠ .error (.missingArgument g.extension option))
    (more : List String) : g.argumentOf e inline (rest ++ more) = g.argumentOf e inline rest := by
  unfold argumentOf at present ⊢
  split
  · rename_i takes
    rw [if_pos takes] at present
    cases inline with
    | some argument => rfl
    | none =>
      cases rest with
      | nil => exact absurd rfl (present e.name)
      | cons argument rest => rfl
  · rfl

theorem occurrence_append
    (present : ∀ option,
      g.occurrence seen inverted token rest ≠ .error (.missingArgument g.extension option))
    (more : List String) :
    g.occurrence seen inverted token (rest ++ more) = g.occurrence seen inverted token rest := by
  unfold occurrence at present ⊢
  cases entry : g.entryOf token with
  | error e => rfl
  | ok row =>
    obtain ⟨e, inline⟩ := row
    simp only [entry, bind, Except.bind] at present ⊢
    cases free : seen.check g.extension g.table e with
    | error e => rfl
    | ok _ =>
      cases allowed : inverted && !e.invertible with
      | true => rfl
      | false =>
        have argued : ∀ option,
            g.argumentOf e inline rest ≠ .error (.missingArgument g.extension option) := by
          intro option missing
          refine present option ?_
          simp [free, allowed, missing]
        rw [argumentOf_append argued more]

/-- Tokens that are read alike wherever an option may start are read alike after any tokens, unless
these lack an argument. -/
theorem readFrom_append_congr {a b : List String}
    (same : ∀ seen inverted, g.readFrom seen inverted a = g.readFrom seen inverted b)
    (whole : ∀ option,
      (g.readFrom seen inverted tokens).ending ≠ .error (.missingArgument g.extension option)) :
    g.readFrom seen inverted (tokens ++ a) = g.readFrom seen inverted (tokens ++ b) := by
  -- Along the reading of the tokens in front, which ends either way before the two differ.
  fun_induction readFrom g seen inverted tokens with
  | case1 seen inverted => exact same seen inverted
  | case2 seen rest => simp [readFrom]
  | case3 seen inverted rest upright ih =>
    simp only [List.cons_append]
    rw [readFrom, if_pos rfl, if_neg upright, readFrom, if_pos rfl, if_neg upright]
    exact ih whole
  | case4 seen inverted token rest plain e failed =>
    have present : ∀ option, g.occurrence seen inverted token rest ≠
        .error (.missingArgument g.extension option) := by
      intro option missing
      rw [failed] at missing
      cases missing
      exact whole option rfl
    simp only [List.cons_append]
    rw [readFrom, if_neg plain, readFrom, if_neg plain, occurrence_append present,
      occurrence_append present, failed]
  | case5 seen inverted token rest plain o taken read reading ih =>
    have present : ∀ option, g.occurrence seen inverted token rest ≠
        .error (.missingArgument g.extension option) := by
      intro option missing
      rw [read] at missing
      cases missing
    have short : taken ≤ rest.length := by
      obtain ⟨-, length, -⟩ := occurrence_again read
      rw [← length, List.length_take]
      exact Nat.min_le_right _ _
    have later := ih whole
    simp only [List.cons_append]
    rw [readFrom, if_neg plain, readFrom, if_neg plain, occurrence_append present,
      occurrence_append present, read]
    simp only [List.drop_append_of_le_length short, later]

/-- An argument after an equals sign is read as the one in the next token, whatever either is. -/
theorem readFrom_joined (legible : g.Legible) (row : e ∈ g.table)
    (takes : e.takesArgument = true) (argument : String) :
    g.readFrom seen inverted (("--" ++ e.name ++ "=" ++ argument) :: rest) =
      g.readFrom seen inverted (("--" ++ e.name) :: argument :: rest) := by
  rw [readFrom, if_neg (joined_ne_mark _ _), readFrom, if_neg (option_ne_mark _)]
  simp only [occurrence, entryOf_joined legible row, entryOf_option legible row, argumentOf,
    takes, if_true, bind, Except.bind]
  cases seen.check g.extension g.table e with
  | error e => rfl
  | ok _ =>
    cases inverted && !e.invertible with
    | true => rfl
    | false =>
      cases Operand.read g.extension e (some argument) with
      | error e => rfl
      | ok operand => rfl

end Grammar

namespace Extension

/-- An option with its argument after an equals sign and one with its argument in the next token do
the same, whatever the argument looks like and whichever tokens stand around them, unless those in
front lack an argument: the rule has the same outcome and leaves the same record. -/
theorem applyTokens_joined (host : Context) (ext : Extension) {e : Entry} (row : e ∈ ext.table)
    (takes : e.takesArgument = true) {before : List String}
    (whole : ¬ ext.grammar.Lacks before) (argument : String) (after : List String) :
    ext.applyTokens host (before ++ ["--" ++ e.name ++ "=" ++ argument] ++ after) =
      ext.applyTokens host (before ++ ["--" ++ e.name, argument] ++ after) := by
  have alike (seen : Register) (inverted : Bool) :
      ext.grammar.readFrom seen inverted (("--" ++ e.name ++ "=" ++ argument) :: after) =
        ext.grammar.readFrom seen inverted (("--" ++ e.name) :: argument :: after) :=
    Grammar.readFrom_joined ext.legible_grammar row takes argument
  have read : ext.grammar.read (before ++ ["--" ++ e.name ++ "=" ++ argument] ++ after) =
      ext.grammar.read (before ++ ["--" ++ e.name, argument] ++ after) := by
    rw [List.append_assoc, List.append_assoc]
    exact Grammar.readFrom_append_congr alike fun option missing => whole ⟨option, missing⟩
  rw [applyTokens, applyTokens, read]

theorem applyTokens_joined_timeout :
    let ext : Extension := .connTrack (.create 1)
    ¬ ext.grammar.Lacks ["--zone=5", "--helper", "--zone"] ∧
      ext.applyTokens .empty (["--zone=5", "--helper", "--zone"] ++ ["--timeout=--a=!"] ++ ["!"]) =
        ext.applyTokens .empty
          (["--zone=5", "--helper", "--zone"] ++ ["--timeout", "--a=!"] ++ ["!"]) := by
  have whole : ¬ (Extension.connTrack (.create 1)).grammar.Lacks
      ["--zone=5", "--helper", "--zone"] := by
    rintro ⟨option, missing⟩
    have read : ((Extension.connTrack (.create 1)).grammar.read
        ["--zone=5", "--helper", "--zone"]).ending = .ok ⟨0x12⟩ := by with_unfolding_all rfl
    cases read.symm.trans missing
  have row : (⟨"timeout", 5, .text, ConnTrack.untrackedBits, false⟩ : Entry) ∈
      (Extension.connTrack (.create 1)).table := by decide
  exact ⟨whole, applyTokens_joined .empty (.connTrack (.create 1)) row rfl whole "--a=!" ["!"]⟩

end Extension

end FilterRecord
