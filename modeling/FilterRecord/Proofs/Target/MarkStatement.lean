/- Proofs/Target/MarkStatement
   digest: The nftables statement of a MARK record, read back and evaluated, gives the record's mark. -/

import FilterRecord.Proofs.Mask.Operation
import FilterRecord.Target.Mark

set_option autoImplicit false
set_option relaxedAutoImplicit false

namespace FilterRecord.Mark

open Text

inductive Operator
  | and | or | xor
deriving DecidableEq, Repr

namespace Operator

def word : Operator → String
  | and => "and"
  | or => "or"
  | xor => "xor"

def ofWord? : String → Option Operator
  | "and" => some and
  | "or" => some or
  | "xor" => some xor
  | _ => none

def apply (left right : UInt64) : Operator → UInt64
  | and => left &&& right
  | or => left ||| right
  | xor => left ^^^ right

theorem ofWord?_word (op : Operator) : ofWord? op.word = some op := by
  cases op <;> rfl

theorem solid_word (op : Operator) : Solid op.word := by
  cases op <;> decide

end Operator

/-- The value of a term: `mark` is the old mark, and any other term is a numeral. -/
def term? (old : UInt64) (term : String) : Option UInt64 :=
  if term = "mark" then some old else (Numeral.whole? term.toList).map UInt64.ofNat

/-- The value after pairs of an operator and a term, taken from left to right. -/
def valueFrom? (old value : UInt64) : List String → Option UInt64
  | [] => some value
  | [_] => none
  | operator :: term :: rest =>
    match Operator.ofWord? operator, term? old term with
    | some op, some right => valueFrom? old (op.apply value right) rest
    | _, _ => none

/-- The mark that an nftables statement gives to a packet with an old mark, read from the statement's
text. -/
def outcome? (old : UInt64) (statement : String) : Option UInt64 :=
  match tokens statement with
  | "meta" :: "mark" :: "set" :: first :: rest =>
    (term? old first).bind fun value => valueFrom? old value rest
  | _ => none

theorem term?_mark (old : UInt64) : term? old "mark" = some old :=
  if_pos rfl

theorem term?_hex (old n : UInt64) : term? old (Numeral.hex n.toNat) = some n := by
  have other : Numeral.hex n.toNat ≠ "mark" := by
    intro same
    have first := congrArg (fun s => s.toList.head?) same
    simp [Numeral.hex] at first
  rw [term?, if_neg other, Numeral.whole?_hex n.toNat_lt, Option.map_some, UInt64.ofNat_toNat]

/-- An expression for a new mark, in the forms that a statement of a record takes. -/
inductive Expression
  /-- A number. -/
  | number (n : UInt64)
  /-- The old mark, changed by one operator. -/
  | single (op : Operator) (n : UInt64)
  /-- The bits to keep of the old mark, and the bits to toggle then. -/
  | keptToggled (kept toggled : UInt64)
deriving DecidableEq, Repr

namespace Expression

def text : Expression → String
  | number n => Numeral.hex n.toNat
  | single op n => "mark " ++ op.word ++ " " ++ Numeral.hex n.toNat
  | keptToggled kept toggled =>
    "mark and " ++ Numeral.hex kept.toNat ++ " xor " ++ Numeral.hex toggled.toNat

def statement (e : Expression) : String := "meta mark set " ++ e.text

def terms : Expression → List String
  | number n => [Numeral.hex n.toNat]
  | single op n => ["mark", op.word, Numeral.hex n.toNat]
  | keptToggled kept toggled =>
    ["mark", "and", Numeral.hex kept.toNat, "xor", Numeral.hex toggled.toNat]

def value (old : UInt64) : Expression → UInt64
  | number n => n
  | single op n => op.apply old n
  | keptToggled kept toggled => (old &&& kept) ^^^ toggled

theorem solid_terms (e : Expression) : ∀ term ∈ e.terms, Solid term := by
  intro term member
  cases e with
  | number n =>
    rw [List.mem_singleton.mp member]
    exact solid_hex _
  | single op n =>
    simp only [terms, List.mem_cons, List.not_mem_nil, or_false] at member
    rcases member with rfl | rfl | rfl
    · decide
    · exact op.solid_word
    · exact solid_hex _
  | keptToggled kept toggled =>
    simp only [terms, List.mem_cons, List.not_mem_nil, or_false] at member
    rcases member with rfl | rfl | rfl | rfl | rfl
    · decide
    · decide
    · exact solid_hex _
    · decide
    · exact solid_hex _

theorem statement_eq_render (e : Expression) :
    e.statement = "meta" ++ render ("mark" :: "set" :: e.terms) := by
  cases e <;> simp [statement, text, terms, render, ← String.toList_inj]

theorem tokens_statement (e : Expression) :
    tokens e.statement = "meta" :: "mark" :: "set" :: e.terms := by
  have solid : ∀ word ∈ "mark" :: "set" :: e.terms, Solid word := by
    intro word member
    rcases List.mem_cons.mp member with rfl | member
    · decide
    · rcases List.mem_cons.mp member with rfl | member
      · decide
      · exact e.solid_terms word member
  rw [statement_eq_render, tokens_append_render (by decide), tokens_render solid]

/-- What is read from a statement's text is the value of its expression. -/
theorem outcome?_statement (e : Expression) (old : UInt64) :
    outcome? old e.statement = some (e.value old) := by
  rw [outcome?, tokens_statement]
  cases e with
  | number n => simp [terms, term?_hex, valueFrom?, value]
  | single op n => simp [terms, term?_mark, term?_hex, valueFrom?, op.ofWord?_word, value]
  | keptToggled kept toggled =>
    simp [terms, term?_mark, term?_hex, valueFrom?, Operator.ofWord?, value, Operator.apply]

def ofForm : Form → Expression
  | .and bits => single .and bits.toUInt64
  | .or bits => single .or bits.toUInt64
  | .xor bits => single .xor bits.toUInt64
  | .set value => number value.toUInt64
  | .setMasked value mask => keptToggled (~~~mask).toUInt64 value.toUInt64

theorem value_ofForm (form : Form) (old : UInt32) :
    (ofForm form).value old.toUInt64 = (form.operation.effect old).toUInt64 := by
  cases form <;> simp [ofForm, value, Operator.apply, Form.operation, Operation.effect]

/-- The expression of a masked word: a number if the mask is full, and else that of its form. -/
def ofWord (w : MaskedWord) : Expression :=
  if w.mask = MaskedWord.fullMask then number w.value.toUInt64 else ofForm w.form

theorem text_ofWord (w : MaskedWord) : (ofWord w).text = expression w := by
  unfold ofWord expression
  split
  · rw [text, UInt32.toNat_toUInt64]
  · cases w.form <;> simp [ofForm, text, Operator.word, -UInt32.toNat_not, -UInt32.toUInt64_not]

theorem value_ofWord (w : MaskedWord) (old : UInt32) :
    (ofWord w).value old.toUInt64 = (w.apply old).toUInt64 := by
  unfold ofWord
  split
  · rename_i full
    -- A full mask with a value of zero is shown as a form that clears, but it is written as a number.
    have replaces : w.apply old = w.value := by
      have stored := Operation.apply_encode (.set w.value) old
      rwa [Operation.encode, ← full] at stored
    rw [value, replaces]
  · rw [value_ofForm, ← Operation.apply_encode, w.encode_form]

end Expression

theorem statement?_masked (w : MaskedWord) :
    (masked w).statement? = some (Expression.ofWord w).statement := by
  rw [statement?, Expression.statement, Expression.text_ofWord]

theorem statement?_moded (mark : UInt64) :
    (moded mark 0).statement? = some (Expression.number mark).statement ∧
      (moded mark 1).statement? = some (Expression.single .and mark).statement ∧
      (moded mark 2).statement? = some (Expression.single .or mark).statement := by
  refine ⟨rfl, ?_, ?_⟩
  all_goals simp [statement?, Expression.statement, Expression.text, Operator.word,
    ← String.toList_inj]

/-- The statement of a record with a masked word, or with a mark and one of the three modes, sets
the mark to an expression of five forms. Read back from its text and evaluated from left to right,
the expression gives each old mark what the record makes of it. -/
theorem statement_computes :
    (∀ word : MaskedWord, ∃ e : Expression, (masked word).statement? = some e.statement ∧
      ∀ old : UInt32, outcome? old.toUInt64 e.statement =
        some ((old &&& ~~~word.mask) ^^^ word.value).toUInt64) ∧
    (∀ mark : UInt64, ∃ e : Expression, (moded mark 0).statement? = some e.statement ∧
      ∀ old : UInt64, outcome? old e.statement = some mark) ∧
    (∀ mark : UInt64, ∃ e : Expression, (moded mark 1).statement? = some e.statement ∧
      ∀ old : UInt64, outcome? old e.statement = some (old &&& mark)) ∧
    ∀ mark : UInt64, ∃ e : Expression, (moded mark 2).statement? = some e.statement ∧
      ∀ old : UInt64, outcome? old e.statement = some (old ||| mark) := by
  refine ⟨fun word => ⟨_, statement?_masked word, fun old => ?_⟩,
    fun mark => ⟨_, (statement?_moded mark).1, fun old => ?_⟩,
    fun mark => ⟨_, (statement?_moded mark).2.1, fun old => ?_⟩,
    fun mark => ⟨_, (statement?_moded mark).2.2, fun old => ?_⟩⟩
  · rw [Expression.outcome?_statement, Expression.value_ofWord, MaskedWord.apply]
  · rw [Expression.outcome?_statement, Expression.value]
  · rw [Expression.outcome?_statement, Expression.value, Operator.apply]
  · rw [Expression.outcome?_statement, Expression.value, Operator.apply]

example : outcome? 0xabcd "meta mark set mark and 0xffffff00 xor 0x12" = some 0xab12 := by
  decide

end FilterRecord.Mark
