/- Proofs/Text/Words
   digest: Words set side by side are the words of the text; joined pieces are cut apart again. -/

import FilterRecord.Options.Shown
import FilterRecord.Text.Blank
import FilterRecord.Proofs.Text.Numeral

set_option autoImplicit false
set_option relaxedAutoImplicit false

namespace FilterRecord.Text

/-- The words of a text, as the tokens of a rule. -/
def tokens (text : String) : List String :=
  (words text.toList).map String.ofList

def Unbroken (text : String) : Prop := ∀ c ∈ text.toList, isBlank c = false

/-- A text that is one word: it has a character, and none of them is blank. -/
def Solid (text : String) : Prop := text ≠ "" ∧ Unbroken text

-- By name, since the characters are enumerated where every `Decidable` instance is known.
instance (text : String) : Decidable (Unbroken text) :=
  List.decidableBAll (fun c => isBlank c = false) text.toList

instance (text : String) : Decidable (Solid text) :=
  inferInstanceAs (Decidable (_ ∧ _))

theorem split_append {isSeparator : Char → Bool} {piece : List Char}
    (clean : ∀ c ∈ piece, isSeparator c = false) (rest : List Char) :
    split isSeparator (piece ++ rest) = (split isSeparator rest).modifyHead (piece ++ ·) := by
  induction piece with
  | nil =>
    cases h : split isSeparator rest <;> simp [h]
  | cons c piece ih =>
    have head : isSeparator c = false := clean c (by simp)
    have tail := ih fun d hd => clean d (by simp [hd])
    rw [List.cons_append, split, tail]
    cases split isSeparator rest <;> simp [head]

theorem split_of_clean {isSeparator : Char → Bool} {piece : List Char}
    (clean : ∀ c ∈ piece, isSeparator c = false) : split isSeparator piece = [piece] := by
  have whole := split_append clean []
  simpa [split] using whole

theorem split_ne_nil (isSeparator : Char → Bool) (cs : List Char) : split isSeparator cs ≠ [] := by
  induction cs with
  | nil => simp [split]
  | cons c cs ih =>
    unfold split
    split
    · simp
    · simpa using ih

theorem not_separator_of_mem_split {isSeparator : Char → Bool} {cs piece : List Char}
    (member : piece ∈ split isSeparator cs) : ∀ c ∈ piece, isSeparator c = false := by
  induction cs generalizing piece with
  | nil =>
    intro c hc
    rw [List.mem_singleton.mp member] at hc
    exact absurd hc (by simp)
  | cons d cs ih =>
    unfold split at member
    split at member
    · rcases List.mem_cons.mp member with rfl | member
      · simp
      · exact ih member
    · rename_i other
      cases pieces : split isSeparator cs with
      | nil => simp [pieces] at member
      | cons first rest =>
        rw [pieces, List.modifyHead_cons] at member
        rcases List.mem_cons.mp member with rfl | member
        · intro c hc
          rcases List.mem_cons.mp hc with rfl | hc
          · simpa using other
          · exact ih (by simp [pieces]) c hc
        · exact ih (by simp [pieces, member])

theorem solid_of_mem_words {cs word : List Char} (member : word ∈ words cs) :
    Solid (String.ofList word) := by
  obtain ⟨piece, some_char⟩ := List.mem_filter.mp member
  refine ⟨?_, ?_⟩
  · rw [ne_eq, ← String.toList_inj, String.toList_ofList]
    simpa using some_char
  · intro c hc
    rw [String.toList_ofList] at hc
    exact not_separator_of_mem_split piece c hc

theorem split_joinWith {names : List String} (some_name : names ≠ [])
    (clean : ∀ n ∈ names, ',' ∉ n.toList) :
    split (· == ',') (joinWith "," names).toList = names.map String.toList := by
  have plain : ∀ n ∈ names, ∀ c ∈ n.toList, (c == ',') = false := by
    intro n hn c hc
    simp only [beq_eq_false_iff_ne]
    rintro rfl
    exact clean n hn hc
  induction names with
  | nil => exact absurd rfl some_name
  | cons n rest ih =>
    cases rest with
    | nil => simpa [joinWith] using split_of_clean (plain n (by simp))
    | cons m rest =>
      have tail := ih (by simp) (fun k hk => clean k (by simp [hk]))
        fun k hk => plain k (by simp [hk])
      have text : (joinWith "," (n :: m :: rest)).toList =
          n.toList ++ ',' :: (joinWith "," (m :: rest)).toList := by
        simp [joinWith]
      rw [text, split_append (plain n (by simp)), split, if_pos (by simp), tail]
      simp

def pieces (list : String) : List String :=
  (split (· == ',') list.toList).map String.ofList

def filledPieces (list : String) : List String := (pieces list).filter (· != "")

theorem pieces_joinWith {names : List String} (some_name : names ≠ [])
    (clean : ∀ n ∈ names, ',' ∉ n.toList) : pieces (joinWith "," names) = names := by
  rw [pieces, split_joinWith some_name clean, List.map_map]
  simp [Function.comp_def]

theorem filledPieces_joinWith {names : List String} (some_name : names ≠ [])
    (solid : ∀ n ∈ names, Solid n ∧ ',' ∉ n.toList) :
    filledPieces (joinWith "," names) = names := by
  rw [filledPieces, pieces_joinWith some_name fun n member => (solid n member).2]
  exact List.filter_eq_self.mpr fun n member => bne_iff_ne.mpr (solid n member).1.1

theorem sameLetters_trans {a b c : String} (first : sameLetters a c = true)
    (second : sameLetters b c = true) : sameLetters a b = true := by
  simp only [sameLetters, beq_iff_eq] at first second ⊢
  rw [first, second]

theorem splitFirst_of_not_mem {separator : Char} {cs : List Char} (absent : separator ∉ cs) :
    splitFirst separator cs = none := by
  induction cs with
  | nil => rfl
  | cons c cs ih =>
    have other : c ≠ separator := fun h => absent (by simp [h])
    simp [splitFirst, other, ih fun h => absent (by simp [h])]

theorem splitFirst_append {separator : Char} {before : List Char} (absent : separator ∉ before)
    (after : List Char) :
    splitFirst separator (before ++ separator :: after) = some (before, after) := by
  induction before with
  | nil => simp [splitFirst]
  | cons c before ih =>
    have other : c ≠ separator := fun h => absent (by simp [h])
    simp [splitFirst, other, ih fun h => absent (by simp [h])]

theorem splitFirst_eq_some_iff {separator : Char} {cs before after : List Char} :
    splitFirst separator cs = some (before, after) ↔
      cs = before ++ separator :: after ∧ separator ∉ before := by
  constructor
  · intro cut
    induction cs generalizing before after with
    | nil => exact absurd cut (by simp [splitFirst])
    | cons d cs ih =>
      unfold splitFirst at cut
      split at cut
      · rename_i same
        cases cut
        simp [same]
      · rename_i other
        obtain ⟨⟨early, late⟩, tail, parts⟩ := Option.map_eq_some_iff.mp cut
        cases parts
        obtain ⟨rfl, absent⟩ := ih tail
        simp [absent, Ne.symm other]
  · rintro ⟨rfl, absent⟩
    exact splitFirst_append absent after

private theorem split_render (ws : List String) (unbroken : ∀ w ∈ ws, Unbroken w) :
    split isBlank (render ws).toList = [] :: ws.map String.toList := by
  induction ws with
  | nil => simp [render, split]
  | cons w ws ih =>
    have blank : isBlank ' ' = true := by decide
    have tail := ih fun v hv => unbroken v (by simp [hv])
    have text : (render (w :: ws)).toList = ' ' :: (w.toList ++ (render ws).toList) := by
      simp [render]
    rw [text, split, if_pos blank, split_append (unbroken w (by simp)), tail]
    simp

theorem tokens_render_of_unbroken {ws : List String} (unbroken : ∀ w ∈ ws, Unbroken w) :
    tokens (render ws) = ws.filter (· != "") := by
  have emptiness (w : String) : (!w.toList.isEmpty) = (w != "") := by
    rw [Bool.eq_iff_iff]
    simp
  rw [tokens, words, split_render ws unbroken, List.filter_cons_of_neg (by simp), List.filter_map,
    List.map_map]
  simp [Function.comp_def, emptiness]

theorem tokens_render {ws : List String} (solid : ∀ w ∈ ws, Solid w) :
    tokens (render ws) = ws := by
  rw [tokens_render_of_unbroken fun w hw => (solid w hw).2]
  exact List.filter_eq_self.mpr fun w hw => bne_iff_ne.mpr (solid w hw).1

theorem tokens_blank (text : String) : tokens (" " ++ text) = tokens text := by
  have blank : isBlank ' ' = true := by decide
  have shape : (" " ++ text).toList = ' ' :: text.toList := by simp
  rw [tokens, tokens, shape, words, split, if_pos blank, List.filter_cons_of_neg (by simp), words]

theorem tokens_append_render {w : String} (solid : Solid w) (ws : List String) :
    tokens (w ++ render ws) = w :: tokens (render ws) := by
  have filled : (!w.toList.isEmpty) = true := by simpa using solid.1
  cases ws with
  | nil => simp [tokens, words, render, split_of_clean solid.2, split, solid.1]
  | cons v ws =>
    have blank : isBlank ' ' = true := by decide
    have text : (w ++ render (v :: ws)).toList = w.toList ++ ' ' :: (v ++ render ws).toList := by
      simp [render]
    have rest : render (v :: ws) = " " ++ (v ++ render ws) := String.append_assoc
    rw [rest, tokens_blank, ← rest, tokens, tokens, text, words, words, split_append solid.2, split,
      if_pos blank]
    simp [filled]

theorem tokens_render_cons {w : String} (solid : Solid w) (ws : List String) :
    tokens (render (w :: ws)) = w :: tokens (render ws) := by
  have shape : render (w :: ws) = " " ++ (w ++ render ws) := String.append_assoc
  rw [shape, tokens_blank, tokens_append_render solid]

theorem unbroken_append {a b : String} (ha : Unbroken a) (hb : Unbroken b) : Unbroken (a ++ b) := by
  intro c hc
  rw [String.toList_append] at hc
  rcases List.mem_append.mp hc with hc | hc
  · exact ha c hc
  · exact hb c hc

theorem solid_append {a b : String} (ha : Solid a) (hb : Unbroken b) : Solid (a ++ b) := by
  refine ⟨?_, unbroken_append ha.2 hb⟩
  have first := ha.1
  simp_all

theorem solid_pair {a b : String} (ha : Solid a) (hb : Solid b) : ∀ w ∈ [a, b], Solid w := by
  intro w hw
  rcases List.mem_pair.mp hw with rfl | rfl
  · exact ha
  · exact hb

theorem solid_joinWith {names : List String} (some_name : names ≠ [])
    (solid : ∀ n ∈ names, Solid n) : Solid (joinWith "," names) := by
  induction names with
  | nil => exact absurd rfl some_name
  | cons n rest ih =>
    cases rest with
    | nil => exact solid n (by simp)
    | cons m rest =>
      have tail := ih (by simp) fun k hk => solid k (by simp [hk])
      have comma : Unbroken "," := by decide
      exact solid_append (solid_append (solid n (by simp)) comma) tail.2

theorem solid_shown {shows inverted : Bool} {ws : List String}
    (solid : shows = true → ∀ w ∈ ws, Solid w) :
    ∀ w ∈ Options.shown shows inverted ws, Solid w := by
  intro w hw
  cases shows with
  | false => exact absurd hw (by simp [Options.shown])
  | true =>
    rcases List.mem_append.mp hw with mark | hw
    · cases inverted with
      | false => exact absurd mark (by simp)
      | true =>
        rw [List.mem_singleton.mp mark]
        decide
    · exact solid rfl w hw

theorem not_blank_of_isAlphanum {c : Char} (h : c.isAlphanum = true) : isBlank c = false := by
  by_contra blank
  have member : c ∈ blanks := by simpa [isBlank] using blank
  have none_alphanum : blanks.all (!·.isAlphanum) = true := by decide
  have other := List.all_eq_true.mp none_alphanum c member
  simp [h] at other

theorem solid_toDigits {base : Nat} (large : 1 < base) (small : base ≤ 16) (n : Nat) :
    Solid (String.ofList (Nat.toDigits base n)) := by
  refine ⟨by simp [← String.toList_inj], ?_⟩
  intro c hc
  rw [String.toList_ofList] at hc
  have digit := Numeral.isDigit_of_mem_toDigits large small n c hc
  exact not_blank_of_isAlphanum (Numeral.isAlphanum_of_isDigit digit)

theorem solid_decimal (n : Nat) : Solid (Numeral.decimal n) :=
  solid_toDigits (by decide) (by decide) n

theorem solid_bareHex (n : Nat) : Solid (Numeral.bareHex n) :=
  solid_toDigits (by decide) (by decide) n

theorem solid_hex (n : Nat) : Solid (Numeral.hex n) :=
  solid_append (by decide) (solid_bareHex n).2

end FilterRecord.Text
