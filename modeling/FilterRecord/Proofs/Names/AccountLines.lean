/- Proofs/Names/AccountLines
   digest: Which lines of an account file give accounts, and that each line is read by itself. -/

import FilterRecord.Names.Accounts
import FilterRecord.Proofs.Text.NumeralGrammar
import FilterRecord.Proofs.Text.Separated

set_option autoImplicit false
set_option relaxedAutoImplicit false

namespace FilterRecord.AccountTable

open Text
open Numeral (Writes)

/-- The account of a line that is no comment: the name that its first field has between blanks, and
the number that its third field writes. -/
inductive Gives (line : List Char) : UInt32 × String → Prop
  | account {first second third name : List Char} {others : List (List Char)} (id : UInt32)
    (told : ¬ Comment line) (fields : Separated ':' line (first :: second :: third :: others))
    (trimmed : Trimmed name first) (named : name ≠ []) (writes : Writes third id.toNat) :
    Gives line (id, String.ofList name)

variable {line : List Char} {account : UInt32 × String}

/-! ## One line -/

theorem readLine_eq_some_iff : readLine line = some account ↔ Gives line account := by
  constructor
  · intro read
    unfold readLine at read
    split at read
    · cases read
    · rename_i told
      split at read
      · rename_i first second third others cut
        dsimp only at read
        split at read
        · cases read
        · rename_i named
          obtain ⟨id, numeral, rfl⟩ := Option.map_eq_some_iff.mp read
          exact .account id (mt comment_iff.mp told) (split_eq_iff.mp cut) (trim_eq_iff.mp rfl)
            (mt List.isEmpty_iff.mpr named) (Numeral.word32?_eq_some_iff.mp numeral)
      · cases read
  · intro gives
    obtain ⟨id, told, fields, trimmed, named, writes⟩ := gives
    have cut := split_eq_iff.mpr fields
    rw [readLine, if_neg (mt comment_iff.mpr told), cut]
    dsimp only
    rw [trim_eq_iff.mpr trimmed, if_neg (mt List.isEmpty_iff.mp named),
      Numeral.word32?_eq_some_iff.mpr writes]
    rfl

/-! ## All lines -/

theorem mem_ofText_iff {text : String} : account ∈ ofText text ↔
    ∃ rows, Lines text.toList rows ∧ ∃ line ∈ rows, Gives line account := by
  rw [ofText, List.mem_filterMap]
  simp only [readLine_eq_some_iff, ← lines_eq_iff, exists_eq_left']

/-- A text that has no unfinished line. -/
def Ended (text : String) : Prop :=
  text = "" ∨ ∃ body, text = body ++ "\n"

theorem ofText_append {before : String} (ended : Ended before) (after : String) :
    ofText (before ++ after) = ofText before ++ ofText after := by
  rcases ended with rfl | ⟨body, rfl⟩
  · rw [String.empty_append]
    rfl
  · have whole : (body ++ "\n" ++ after).toList = body.toList ++ '\n' :: after.toList := by simp
    have first : (body ++ "\n").toList = body.toList ++ ['\n'] := by simp
    rw [ofText, ofText, ofText, whole, first, lines_append, List.filterMap_append]

/-! ## Look-ups -/

/-- A table goes on with another one: it keeps all its answers, and the other one gives the rest. -/
structure Continues (first second both : AccountTable) : Prop where
  entries : both = first ++ second
  id_kept {name : String} {id : UInt32} (found : first.idOf? name = some id) :
    both.idOf? name = some id
  id_later {name : String} (missing : first.idOf? name = none) :
    both.idOf? name = second.idOf? name
  name_kept {name : String} {id : UInt32} (found : first.nameOf? id = some name) :
    both.nameOf? id = some name
  name_later {id : UInt32} (missing : first.nameOf? id = none) :
    both.nameOf? id = second.nameOf? id

variable (first second : AccountTable)

theorem idOf?_append (name : String) :
    idOf? (first ++ second) name = (first.idOf? name).or (second.idOf? name) := by
  rw [idOf?, List.find?_append, Option.map_or, ← idOf?, ← idOf?]

theorem nameOf?_append (id : UInt32) :
    nameOf? (first ++ second) id = (first.nameOf? id).or (second.nameOf? id) := by
  rw [nameOf?, List.find?_append, Option.map_or, ← nameOf?, ← nameOf?]

theorem continues_append : Continues first second (first ++ second) where
  entries := rfl
  id_kept found := by rw [idOf?_append, found, Option.some_or]
  id_later missing := by rw [idOf?_append, missing, Option.none_or]
  name_kept found := by rw [nameOf?_append, found, Option.some_or]
  name_later missing := by rw [nameOf?_append, missing, Option.none_or]

end FilterRecord.AccountTable

namespace FilterRecord.Accounts

open AccountTable
open Text (Lines)

/-- The users and the groups that a text gives go on with those of the text after it, where no line
runs from one into the other. The accounts are those that the lines give. -/
theorem accounts_line_by_line {before : String} (ended : Ended before) (after other : String) :
    Continues (ofTexts before other).users (ofTexts after other).users
      (ofTexts (before ++ after) other).users ∧
    Continues (ofTexts other before).groups (ofTexts other after).groups
      (ofTexts other (before ++ after)).groups ∧
    (∀ passwd group user, user ∈ (ofTexts passwd group).users ↔
      ∃ rows, Lines passwd.toList rows ∧ ∃ line ∈ rows, Gives line user) ∧
    ∀ passwd group entry, entry ∈ (ofTexts passwd group).groups ↔
      ∃ rows, Lines group.toList rows ∧ ∃ line ∈ rows, Gives line entry := by
  have continued : Continues (ofText before) (ofText after) (ofText (before ++ after)) := by
    rw [ofText_append ended]
    exact continues_append _ _
  exact ⟨continued, continued, fun _ _ _ => mem_ofText_iff, fun _ _ _ => mem_ofText_iff⟩

/-- An account in a comment is looked for in what comes after it. -/
theorem accounts_line_by_line_comment :
    Ended "# ada:x:4\n" ∧
    (ofTexts ("# ada:x:4\n" ++ "ada:x:7") "").users.idOf? "ada" = some 7 := by
  have ended : Ended "# ada:x:4\n" := .inr ⟨"# ada:x:4", rfl⟩
  have goes_on := (accounts_line_by_line ended "ada:x:7" "").1
  have missing : (ofTexts "# ada:x:4\n" "").users.idOf? "ada" = none := by decide
  have found : (ofTexts "ada:x:7" "").users.idOf? "ada" = some 7 := by decide
  exact ⟨ended, (goes_on.id_later missing).trans found⟩

end FilterRecord.Accounts
