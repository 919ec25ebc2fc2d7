/- Proofs/Arguments/Writing
   digest: The words of an option, followed by others, lead on from the record after the option. -/

import FilterRecord.Options.Shown
import FilterRecord.Proofs.Arguments.Reading
import FilterRecord.Proofs.Options.Operand
import FilterRecord.Proofs.Options.Register
import FilterRecord.Proofs.Text.Words

set_option autoImplicit false
set_option relaxedAutoImplicit false

namespace FilterRecord

open Text
open Options (Apart Entry Occurrence Operand Register Shows shown)

def Options.Occurrence.words (o : Occurrence) : List String :=
  (if o.inverted then ["!"] else []) ++ ("--" ++ o.entry.name) :: o.argument.toList

namespace Grammar

def Legible (g : Grammar) : Prop :=
  ∀ e ∈ g.table, g.table.find? (·.name == e.name) = some e ∧ '=' ∉ e.name.toList

instance (g : Grammar) : Decidable g.Legible :=
  inferInstanceAs (Decidable (∀ e ∈ g.table, _))

def written (g : Grammar) (e : Entry) (argument : Option String) (operand : Operand)
    (inverted : Bool) : Occurrence :=
  ⟨g.extension, g.revision, e, argument, operand, inverted⟩

variable {g : Grammar} {seen : Register} {o : Occurrence} {rest : List String}

theorem admits_written {e : Entry} {argument : Option String} {operand : Operand}
    {inverted : Bool} (row : e ∈ g.table) (free : seen.Misses (e.bit ||| e.excluded))
    (allowed : inverted = true → e.invertible = true) (shows : Shows e.kind argument operand) :
    g.Admits seen (g.written e argument operand inverted) where
  extension := rfl
  revision := rfl
  entry := row
  free := Register.check_eq_ok_iff.mpr free
  invertible := allowed
  argument := shows.takes
  operand := shows.read

private theorem nameOf?_option {name : String} (plain : '=' ∉ name.toList) :
    nameOf? ("--" ++ name) = some (name, none) := by
  simp [nameOf?, splitFirst_of_not_mem plain]

theorem entryOf_option (legible : g.Legible) {e : Entry} (row : e ∈ g.table) :
    g.entryOf ("--" ++ e.name) = .ok (e, none) := by
  obtain ⟨found, plain⟩ := legible e row
  simp [entryOf, nameOf?_option plain, found]

private theorem argumentOf_words {e : Entry} {argument : Option String}
    (taken : argument.isSome = e.takesArgument) :
    g.argumentOf e none (argument.toList ++ rest) = .ok (argument, argument.toList.length) := by
  cases argument with
  | none =>
    have flag : e.takesArgument = false := taken.symm
    simp [argumentOf, flag]
  | some text =>
    have takes : e.takesArgument = true := taken.symm
    simp [argumentOf, takes]

private theorem occurrence_words (legible : g.Legible) (admitted : g.Admits seen o) :
    g.occurrence seen o.inverted ("--" ++ o.entry.name) (o.argument.toList ++ rest) =
      .ok (o, o.argument.toList.length) :=
  occurrence_of_parts admitted (entryOf_option legible admitted.entry)
    (argumentOf_words admitted.argument)

theorem option_ne_mark (text : String) : "--" ++ text ≠ "!" := by
  intro same
  have first := congrArg (·.toList.head?) same
  simp at first

theorem readFrom_option (legible : g.Legible) (admitted : g.Admits seen o) :
    g.readFrom seen o.inverted (("--" ++ o.entry.name) :: (o.argument.toList ++ rest)) =
      ⟨o :: (g.readFrom (seen.add o.entry) false rest).occurrences,
        (g.readFrom (seen.add o.entry) false rest).ending⟩ := by
  rw [readFrom, if_neg (option_ne_mark _), occurrence_words legible admitted]
  simp

theorem readFrom_words (legible : g.Legible) (admitted : g.Admits seen o) :
    g.readFrom seen false (o.words ++ rest) =
      ⟨o :: (g.readFrom (seen.add o.entry) false rest).occurrences,
        (g.readFrom (seen.add o.entry) false rest).ending⟩ := by
  have plain : g.readFrom seen o.inverted (("--" ++ o.entry.name) :: (o.argument.toList ++ rest)) =
      _ := readFrom_option legible admitted
  cases inverted : o.inverted with
  | false => simpa [Occurrence.words, inverted] using plain
  | true =>
    rw [inverted] at plain
    simp only [Occurrence.words, inverted, if_true, List.cons_append, List.nil_append]
    rw [readFrom, if_pos rfl, if_neg (by simp)]
    exact plain

end Grammar

namespace Extension

theorem forall_table {P : List Entry → Prop} (none : P []) (mark : P Mark.table)
    (classify : P Classify.table) (ipMark : P IpMark.table) (connTrack : P ConnTrack.fullTable)
    (socket : P SocketMatch.fullTable) (reversePath : P ReversePath.table) (ext : Extension) :
    P ext.table := by
  cases ext with
  | mark => exact mark
  | classify => exact classify
  | ipMark => exact ipMark
  | connTrack t =>
    simp only [table, ConnTrack.table]
    split
    · exact none
    · exact connTrack
  | socket m =>
    simp only [table, SocketMatch.table]
    split
    · exact none
    · exact socket
  | reversePath => exact reversePath

theorem legible_grammar (ext : Extension) : ext.grammar.Legible := by
  have rows : ∀ e ∈ ext.table,
      ext.table.find? (·.name == e.name) = some e ∧ '=' ∉ e.name.toList := by
    refine forall_table (P := fun rows => ∀ e ∈ rows,
      rows.find? (·.name == e.name) = some e ∧ '=' ∉ e.name.toList) ?_ ?_ ?_ ?_ ?_ ?_ ?_ ext <;>
      decide
  exact rows

/-- Words that lead from one point of a rule to another, whatever follows them. -/
def Leads (host : Context) (g : Grammar) (words : List String) (seen : Register) (ext : Extension)
    (seen' : Register) (ext' : Extension) : Prop :=
  ∀ rest, ext.resume host g seen (words ++ rest) = ext'.resume host g seen' rest

variable {host : Context} {g : Grammar} {seen seen' seen'' : Register}
  {ext ext' ext'' next : Extension} {words words' : List String} {o : Occurrence}

theorem leads_nil : Leads host g [] seen ext seen ext := fun _ => rfl

theorem leads_append (first : Leads host g words seen ext seen' ext')
    (second : Leads host g words' seen' ext' seen'' ext'') :
    Leads host g (words ++ words') seen ext seen'' ext'' := by
  intro rest
  rw [List.append_assoc, first, second]

theorem leads_option (legible : g.Legible) (admitted : g.Admits seen o)
    (applied : ext.apply host o = (next, .ok ())) :
    Leads host g o.words seen ext (seen.add o.entry) next := by
  intro rest
  simp only [resume, Grammar.readFrom_words legible admitted, applyAll, applied]

theorem leads_written {e : Entry} {argument : Option String} {operand : Operand} {inverted : Bool}
    (legible : g.Legible) (row : e ∈ g.table) (free : seen.Misses (e.bit ||| e.excluded))
    (allowed : inverted = true → e.invertible = true) (shows : Shows e.kind argument operand)
    (applied : ext.apply host (g.written e argument operand inverted) = (next, .ok ())) :
    Leads host g ((if inverted then ["!"] else []) ++ ("--" ++ e.name) :: argument.toList)
      seen ext (seen.add e) next :=
  leads_option legible (Grammar.admits_written row free allowed shows) applied

theorem leads_plain {e : Entry} {argument : Option String} {operand : Operand}
    (legible : g.Legible) (row : e ∈ g.table) (free : seen.Misses (e.bit ||| e.excluded))
    (shows : Shows e.kind argument operand)
    (applied : ext.apply host (g.written e argument operand false) = (next, .ok ())) :
    Leads host g (("--" ++ e.name) :: argument.toList) seen ext (seen.add e) next :=
  leads_written legible row free (by simp) shows applied

theorem leads_shown {e : Entry} {argument : Option String} {operand : Operand}
    {given inverted : Bool} (legible : g.Legible) (row : e ∈ g.table)
    (free : given = true → seen.Misses (e.bit ||| e.excluded))
    (allowed : inverted = true → e.invertible = true) (shows : Shows e.kind argument operand)
    (applied : given = true → ext.apply host (g.written e argument operand inverted) =
      (next, .ok ()))
    (skipped : given = false → ext = next) :
    Leads host g (shown given inverted (("--" ++ e.name) :: argument.toList))
      seen ext (seen.after given e) next := by
  cases given with
  | true => exact leads_written legible row (free rfl) allowed shows (applied rfl)
  | false =>
    rw [skipped rfl]
    exact leads_nil

/-- The words of rows that do not exclude one another lead on from row to row, where the words of
each lead from every state of some kind to another state of this kind. -/
theorem leads_rows {σ : Type} (wrap : σ → Extension) (Kind : σ → Prop) (restate : Entry → σ → σ)
    {rows : List Entry} {rowWords : Entry → List String} {given : Entry → Bool}
    (led : ∀ e ∈ rows, ∀ seen state, Kind state → seen.Misses (e.bit ||| e.excluded) →
      Leads host g (rowWords e) seen (wrap state) (seen.after (given e) e)
        (wrap (restate e state)))
    (kept : ∀ e ∈ rows, ∀ state, Kind state → Kind (restate e state))
    (apart : rows.Pairwise Apart)
    (free : ∀ e ∈ rows, seen.Misses (e.bit ||| e.excluded)) (state : σ) (start : Kind state) :
    Leads host g (rows.flatMap rowWords) seen (wrap state)
      (rows.foldl (fun seen e => seen.after (given e) e) seen)
      (wrap (rows.foldl (fun state e => restate e state) state)) := by
  induction rows generalizing seen state with
  | nil => exact leads_nil
  | cons e rest ih =>
    obtain ⟨first, others⟩ := List.pairwise_cons.mp apart
    have free_rest : ∀ other ∈ rest,
        (seen.after (given e) e).Misses (other.bit ||| other.excluded) := by
      intro other known
      exact Register.after_misses.mpr ⟨free other (by simp [known]), fun _ => first other known⟩
    have own := led e (by simp) seen state start (free e (by simp))
    have later := ih (fun other known => led other (by simp [known]))
      (fun other known => kept other (by simp [known])) others free_rest
      _ (kept e (by simp) state start)
    exact leads_append own later

theorem applyTokens_of_leads (led : Leads host ext.grammar words .empty ext seen next)
    (complete : next.finalCheck seen = .ok ()) : ext.applyTokens host words = (next, .ok seen) := by
  have whole := led []
  rw [List.append_nil] at whole
  rw [applyTokens_eq_resume, whole]
  simp [resume, Grammar.readFrom, applyAll, complete, Except.map]

theorem applyTokens_single {e : Entry} {argument : Option String} {operand : Operand}
    (legible : ext.grammar.Legible) (row : e ∈ ext.table)
    (shows : Shows e.kind argument operand) :
    ext.applyTokens host (("--" ++ e.name) :: argument.toList) =
      match ext.apply host (ext.grammar.written e argument operand false) with
      | (next, .error err) => (next, .error err)
      | (next, .ok ()) =>
        (next, (next.finalCheck (Register.empty.add e)).map fun _ => Register.empty.add e) := by
  have admitted : ext.grammar.Admits .empty (ext.grammar.written e argument operand false) :=
    Grammar.admits_written row (Register.empty_misses _) (by simp) shows
  have words : ("--" ++ e.name) :: argument.toList =
      (ext.grammar.written e argument operand false).words ++ [] := by
    rw [List.append_nil]
    rfl
  rw [applyTokens_eq_resume, words, resume, Grammar.readFrom_words legible admitted,
    Grammar.readFrom]
  dsimp only
  unfold applyAll
  rcases ext.apply host (ext.grammar.written e argument operand false) with ⟨next, _ | _⟩
  · rfl
  · rfl

theorem applyTokens_option {e : Entry} {argument : Option String} {operand : Operand}
    (legible : ext.grammar.Legible) (row : e ∈ ext.table)
    (shows : Shows e.kind argument operand)
    (applied : ext.apply host (ext.grammar.written e argument operand false) = (next, .ok ()))
    (complete : next.finalCheck (Register.empty.add e) = .ok ()) :
    ext.applyTokens host (("--" ++ e.name) :: argument.toList) =
      (next, .ok (Register.empty.add e)) := by
  rw [applyTokens_single legible row shows, applied]
  simp [complete, Except.map]

end Extension

end FilterRecord
