/- Proofs/Arguments/Spelling
   digest: Tokens are read to the end when they spell options that may follow one another. -/

import FilterRecord.Proofs.Arguments.Order
import FilterRecord.Proofs.Arguments.Writing

set_option autoImplicit false
set_option relaxedAutoImplicit false

namespace FilterRecord

open Text
open Options (Apart Entry Occurrence Operand Register)

namespace Options.Occurrence

def mark (o : Occurrence) : List String := if o.inverted then ["!"] else []

/-- The ways to write an option, after an exclamation mark where it is inverted: by its name alone,
with its argument in the next token, or with its argument after an equals sign. -/
inductive Spelling (o : Occurrence) : List String → Prop
  | alone : o.argument = none → Spelling o (o.mark ++ ["--" ++ o.entry.name])
  | apart {argument : String} : o.argument = some argument →
    Spelling o (o.mark ++ ["--" ++ o.entry.name, argument])
  | joined {argument : String} : o.argument = some argument →
    Spelling o (o.mark ++ ["--" ++ o.entry.name ++ "=" ++ argument])

end Options.Occurrence

namespace Grammar

/-- An option of a grammar with what is converted from its argument, wherever it may stand. -/
structure Knows (g : Grammar) (o : Occurrence) : Prop where
  extension : o.extension = g.extension
  revision : o.revision = g.revision
  entry : o.entry ∈ g.table
  invertible : o.inverted = true → o.entry.invertible = true
  argument : o.argument.isSome = o.entry.takesArgument
  operand : Operand.read g.extension o.entry o.argument = .ok o.operand

variable {g : Grammar} {seen final : Register} {inverted : Bool} {token : String}
  {rest tokens piece : List String} {o : Occurrence} {occurrences : List Occurrence} {taken : Nat}
  {e : Entry}

theorem admits_iff :
    g.Admits seen o ↔ g.Knows o ∧ seen.Misses (o.entry.bit ||| o.entry.excluded) := by
  constructor
  · rintro ⟨extension, revision, row, free, invertible, argument, operand⟩
    exact ⟨⟨extension, revision, row, invertible, argument, operand⟩,
      Register.check_eq_ok_iff.mp free⟩
  · rintro ⟨⟨extension, revision, row, invertible, argument, operand⟩, free⟩
    exact ⟨extension, revision, row, Register.check_eq_ok_iff.mpr free, invertible, argument,
      operand⟩

private theorem token_of_nameOf? {name : String} {inline : Option String}
    (named : nameOf? token = some (name, inline)) :
    token = "--" ++ name ++ (inline.map ("=" ++ ·)).getD "" := by
  unfold nameOf? at named
  split at named
  · rename_i body dashes
    rw [← String.toList_inj, dashes]
    split at named
    · rename_i before after cut
      cases named
      simp [(splitFirst_eq_some_iff.mp cut).1]
    · cases named
      simp
  · cases named

private theorem token_of_entryOf {inline : Option String}
    (found : g.entryOf token = .ok (e, inline)) :
    token = "--" ++ e.name ++ (inline.map ("=" ++ ·)).getD "" := by
  unfold entryOf at found
  split at found
  · cases found
  · rename_i name _ named
    split at found
    · cases found
    · rename_i row search
      cases found
      have same : e.name = name := by simpa using List.find?_some search
      rw [same]
      exact token_of_nameOf? named

private theorem spelling_of_occurrence
    (read : g.occurrence seen inverted token rest = .ok (o, taken)) :
    o.Spelling ((if inverted then ["!"] else []) ++ token :: rest.take taken) := by
  obtain ⟨e, inline, argument, operand, entry, -, -, argued, -, made⟩ := occurrence_ok read
  have mark : (if inverted then ["!"] else []) = o.mark := by rw [made, Occurrence.mark]
  have name : e.name = o.entry.name := by rw [made]
  have stated : o.argument = argument := by rw [made]
  rw [token_of_entryOf entry, mark, name]
  unfold argumentOf at argued
  split at argued
  · split at argued
    · cases argued
      simpa [String.append_assoc] using Occurrence.Spelling.joined stated
    · cases argued
      simpa using Occurrence.Spelling.apart stated
    · cases argued
  · split at argued
    · cases argued
    · rename_i plain
      cases argued
      have none : inline = none := by simpa using plain
      rw [none]
      simpa using Occurrence.Spelling.alone stated

/-- The occurrences of a reading are spelled by the first tokens, and by all of them where nothing
is left that cannot be read. -/
theorem spelled_readFrom (g : Grammar) (seen : Register) (inverted : Bool)
    (tokens : List String) : ∃ pieces rest,
      (if inverted then ["!"] else []) ++ tokens = pieces.flatten ++ rest ∧
      List.Forall₂ Occurrence.Spelling (g.readFrom seen inverted tokens).occurrences pieces ∧
      ∀ final, (g.readFrom seen inverted tokens).ending = .ok final → rest = [] := by
  fun_induction readFrom g seen inverted tokens with
  | case1 seen inverted =>
    refine ⟨[], if inverted then ["!"] else [], by simp, .nil, fun final ended => ?_⟩
    cases inverted with
    | false => rfl
    | true => cases ended
  | case2 seen rest =>
    exact ⟨[], _, rfl, .nil, fun final ended => by cases ended⟩
  | case3 seen inverted rest upright ih =>
    obtain ⟨pieces, left, cut, spelled, whole⟩ := ih
    refine ⟨pieces, left, ?_, spelled, whole⟩
    rw [← cut]
    simp [upright]
  | case4 seen inverted token rest plain e failed =>
    exact ⟨[], _, rfl, .nil, fun final ended => by cases ended⟩
  | case5 seen inverted token rest plain o taken read reading ih =>
    obtain ⟨pieces, left, cut, spelled, whole⟩ := ih
    have cut' : rest.drop taken = pieces.flatten ++ left := cut
    refine ⟨((if inverted then ["!"] else []) ++ token :: rest.take taken) :: pieces, left, ?_,
      .cons (spelling_of_occurrence read) spelled, whole⟩
    rw [List.flatten_cons, List.append_assoc, ← cut', List.append_assoc, List.cons_append,
      List.take_append_drop]

theorem entryOf_joined (legible : g.Legible) (row : e ∈ g.table) (argument : String) :
    g.entryOf ("--" ++ e.name ++ "=" ++ argument) = .ok (e, some argument) := by
  obtain ⟨found, plain⟩ := legible e row
  have named : nameOf? ("--" ++ e.name ++ "=" ++ argument) = some (e.name, some argument) := by
    simp [nameOf?, splitFirst_append plain]
  simp only [entryOf, named, found]

theorem joined_ne_mark (name argument : String) : "--" ++ name ++ "=" ++ argument ≠ "!" := by
  rw [String.append_assoc, String.append_assoc]
  exact option_ne_mark _

theorem reads_of_spelling (legible : g.Legible) (known : g.Knows o) (spelled : o.Spelling piece) :
    g.Reads piece o := by
  have words (piece : List String) (same : piece = o.words) : g.Reads piece o := by
    intro seen rest free
    rw [same]
    exact readFrom_words legible (admits_iff.mpr ⟨known, Register.check_eq_ok_iff.mp free⟩)
  cases spelled with
  | alone argument => exact words _ (by simp [Occurrence.words, Occurrence.mark, argument])
  | apart argument => exact words _ (by simp [Occurrence.words, Occurrence.mark, argument])
  | @joined text argument =>
    have admitted : g.Admits .empty o := admits_iff.mpr ⟨known, Register.empty_misses _⟩
    have argued : g.argumentOf o.entry (some text) [] = .ok (o.argument, 0) := by
      have takes : o.entry.takesArgument = true := by
        rw [← known.argument, argument]
        rfl
      simp [argumentOf, takes, argument]
    exact reads_of_occurrence (joined_ne_mark _ _)
      (occurrence_of_parts admitted (entryOf_joined legible known.entry text) argued)

private theorem reads_of_spelled {pieces : List (List String)} (legible : g.Legible)
    (spelled : List.Forall₂ Occurrence.Spelling occurrences pieces)
    (known : ∀ o ∈ occurrences, g.Knows o) : List.Forall₂ g.Reads pieces occurrences := by
  induction spelled with
  | nil => exact .nil
  | cons first _ ih =>
    obtain ⟨own, others⟩ := List.forall_mem_cons.mp known
    exact .cons (reads_of_spelling legible own first) (ih others)

private theorem chain_cons_iff :
    g.Chain seen (o :: occurrences) final ↔
      g.Admits seen o ∧ g.Chain (seen.add o.entry) occurrences final := by
  constructor
  · intro chain
    cases chain with
    | cons admitted later => exact ⟨admitted, later⟩
  · rintro ⟨admitted, later⟩
    exact .cons admitted later

/-- Options stand one after another where each may follow the register and all options before it,
and their bits are those seen at the end. -/
theorem chain_iff : g.Chain seen occurrences final ↔
    (∀ o ∈ occurrences, g.Knows o ∧ seen.Misses (o.entry.bit ||| o.entry.excluded)) ∧
      occurrences.Pairwise (fun earlier later => Apart earlier.entry later.entry) ∧
      final.bits = seen.bits ||| Options.bits (occurrences.map (·.entry.id)) := by
  induction occurrences generalizing seen with
  | nil =>
    have same : g.Chain seen [] final ↔ final = seen := by
      constructor
      · intro chain
        cases chain
        rfl
      · rintro rfl
        exact .nil _
    rw [same]
    cases final
    cases seen
    simp [Options.bits]
  | cons o rest ih =>
    have union : (seen.add o.entry).bits ||| Options.bits (rest.map (·.entry.id)) =
        seen.bits ||| Options.bits ((o :: rest).map (·.entry.id)) := UInt32.or_assoc _ _ _
    rw [chain_cons_iff, ih, admits_iff, union, List.forall_mem_cons, List.pairwise_cons]
    constructor
    · rintro ⟨own, others, apart, final⟩
      exact ⟨⟨own, fun p member =>
        ⟨(others p member).1, (Register.add_misses.mp (others p member).2).1⟩⟩,
        ⟨fun p member => (Register.add_misses.mp (others p member).2).2, apart⟩, final⟩
    · rintro ⟨⟨own, others⟩, ⟨first, apart⟩, final⟩
      exact ⟨own, fun p member => ⟨(others p member).1,
        Register.add_misses.mpr ⟨(others p member).2, first p member⟩⟩, apart, final⟩

/-- Tokens are read to the end as options exactly when they spell them, the grammar knows each, and
each may follow those before it. -/
theorem read_iff (legible : g.Legible) : g.read tokens = ⟨occurrences, .ok final⟩ ↔
    ∃ pieces : List (List String), tokens = pieces.flatten ∧
      List.Forall₂ Occurrence.Spelling occurrences pieces ∧ (∀ o ∈ occurrences, g.Knows o) ∧
      occurrences.Pairwise (fun earlier later => Apart earlier.entry later.entry) ∧
      final.bits = Options.bits (occurrences.map (·.entry.id)) := by
  have from_empty : g.Chain .empty occurrences final ↔ (∀ o ∈ occurrences, g.Knows o) ∧
      occurrences.Pairwise (fun earlier later => Apart earlier.entry later.entry) ∧
      final.bits = Options.bits (occurrences.map (·.entry.id)) := by
    have blank : Register.empty.bits = 0 := rfl
    simp only [chain_iff, Register.empty_misses, and_true, blank, UInt32.zero_or]
  constructor
  · intro read
    have ended : (g.readFrom .empty false tokens).ending = .ok final := congrArg (·.ending) read
    obtain ⟨pieces, rest, cut, spelled, whole⟩ := spelled_readFrom g .empty false tokens
    have chain := chain_readFrom ended
    have listed : (g.readFrom .empty false tokens).occurrences = occurrences :=
      congrArg (·.occurrences) read
    rw [listed] at spelled chain
    rw [whole final ended, List.append_nil] at cut
    exact ⟨pieces, cut, spelled, from_empty.mp chain⟩
  · rintro ⟨pieces, rfl, spelled, chain⟩
    exact readFrom_pieces (reads_of_spelled legible spelled chain.1) (from_empty.mpr chain)

end Grammar

end FilterRecord
