/- Proofs/Text/Quoted
   digest: Texts that stand within others, and texts that quotes show as they are. -/

import Mathlib.Data.List.Infix
import FilterRecord.Text.Quoted

set_option autoImplicit false
set_option relaxedAutoImplicit false

namespace FilterRecord.Text

/-- A part stands somewhere in a text, in one piece. -/
def Holds (text part : String) : Prop := part.toList <:+: text.toList

instance (text part : String) : Decidable (Holds text part) :=
  inferInstanceAs (Decidable (part.toList <:+: text.toList))

theorem holds_self (text : String) : Holds text text := List.infix_refl _

theorem Holds.after {text part : String} (held : Holds text part) (before : String) :
    Holds (before ++ text) part := by
  unfold Holds at held ⊢
  rw [String.toList_append]
  exact held.trans (List.suffix_append ..).isInfix

theorem Holds.before {text part : String} (held : Holds text part) (after : String) :
    Holds (text ++ after) part := by
  unfold Holds at held ⊢
  rw [String.toList_append]
  exact held.trans (List.prefix_append ..).isInfix

theorem holds_joinWith {texts : List String} {text part : String} (separator : String)
    (member : text ∈ texts) (held : Holds text part) : Holds (joinWith separator texts) part := by
  induction texts with
  | nil => exact absurd member List.not_mem_nil
  | cons first rest ih =>
    cases rest with
    | nil => rwa [joinWith, ← List.mem_singleton.mp member]
    | cons second more =>
      show Holds (first ++ separator ++ joinWith separator (second :: more)) part
      rcases List.mem_cons.mp member with rfl | later
      · exact (held.before _).before _
      · exact (ih later).after _

namespace Quoted

variable {repertoire : Repertoire} {s : String}

/-- A text without a character that quotes escape. -/
def Verbatim (repertoire : Repertoire) (s : String) : Prop :=
  ∀ c ∈ s.toList, isPlain repertoire c = true ∧ c ≠ '"' ∧ c ≠ '\\'

theorem escape_of_plain {c : Char} (plain : isPlain repertoire c = true) (unquoted : c ≠ '"')
    (unescaped : c ≠ '\\') : escape repertoire c = [c] := by
  have shown : ∀ {d : Char}, d.toNat < 0x20 → c ≠ d := by
    rintro d low rfl
    simp [isPlain, Controls.within, show c.toNat < 0x80 by omega] at plain
    omega
  unfold escape
  split
  case h_7 => rw [if_pos plain]
  case h_5 => exact absurd rfl unquoted
  case h_6 => exact absurd rfl unescaped
  all_goals exact absurd rfl (shown (by decide))

theorem quote_of_verbatim (verbatim : Verbatim repertoire s) :
    quote repertoire s = "\"" ++ s ++ "\"" := by
  have same : s.toList.flatMap (escape repertoire) = s.toList.flatMap ([·]) :=
    List.flatMap_congr fun c member =>
      escape_of_plain (verbatim c member).1 (verbatim c member).2.1 (verbatim c member).2.2
  rw [quote, same, List.flatMap_singleton', String.ofList_toList]

theorem holds_quote (verbatim : Verbatim repertoire s) : Holds (quote repertoire s) s := by
  rw [quote_of_verbatim verbatim]
  exact ((holds_self s).after "\"").before "\""

theorem holds_around {part text : String} (held : Holds part text) (name : String) :
    Holds (around name part) text :=
  (held.after _).before _

theorem holds_record {parts : List (String × String)} {label part text : String}
    (member : (label, part) ∈ parts) (held : Holds part text) (name : String) :
    Holds (record name parts) text := by
  have labelled : label ++ ": " ++ part ∈ parts.map fun part => part.1 ++ ": " ++ part.2 :=
    List.mem_map.mpr ⟨(label, part), member, rfl⟩
  exact ((holds_joinWith ", " labelled (held.after _)).after _).before _

end Quoted

end FilterRecord.Text
