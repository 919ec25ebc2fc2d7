/- Proofs/Arguments/Order
   digest: A rule's tokens cut into occurrences, each read alike wherever it may stand. -/

import FilterRecord.Proofs.Arguments.Reading
import FilterRecord.Proofs.Options.Register

set_option autoImplicit false
set_option relaxedAutoImplicit false

namespace FilterRecord

open Options (Entry Occurrence Register Apart commit)

namespace Grammar

def argumentCount (g : Grammar) (token : String) : Nat :=
  match g.entryOf token with
  | .ok (e, inline) => if e.takesArgument && inline.isNone then 1 else 0
  | .error _ => 0

/-- The occurrences of a rule as they are written, each from its exclamation mark, if it has one, to
its argument, after tokens that belong to the first of them. -/
def cutFrom (g : Grammar) (before : List String) : List String → List (List String)
  | [] => if before.isEmpty then [] else [before]
  | token :: rest =>
    if token = "!" then g.cutFrom (before ++ [token]) rest
    else
      (before ++ token :: rest.take (g.argumentCount token)) ::
        g.cutFrom [] (rest.drop (g.argumentCount token))
  termination_by tokens => tokens.length
  decreasing_by
    · simp
    · simp only [List.length_drop, List.length_cons]
      omega

def cut (g : Grammar) (tokens : List String) : List (List String) := g.cutFrom [] tokens

variable {g : Grammar} {seen final : Register} {inverted : Bool} {token : String}
  {rest tokens before : List String} {o : Occurrence} {taken : Nat}

theorem flatten_cutFrom : (g.cutFrom before tokens).flatten = before ++ tokens := by
  fun_induction cutFrom g before tokens with
  | case1 before empty =>
    rw [List.isEmpty_iff.mp empty]
    rfl
  | case2 before => simp
  | case3 before rest ih =>
    rw [ih]
    simp
  | case4 before token rest plain ih =>
    rw [List.flatten_cons, ih]
    simp

/-- Tokens that are read as one occurrence, wherever it may stand and whatever follows it. -/
def Reads (g : Grammar) (piece : List String) (o : Occurrence) : Prop :=
  ∀ (seen : Register) (rest : List String), seen.check g.extension g.table o.entry = .ok () →
    g.readFrom seen false (piece ++ rest) =
      ⟨o :: (g.readFrom (seen.add o.entry) false rest).occurrences,
        (g.readFrom (seen.add o.entry) false rest).ending⟩

private theorem argumentOf_take {e : Entry} {inline argument : Option String}
    (argued : g.argumentOf e inline rest = .ok (argument, taken)) (later : List String) :
    g.argumentOf e inline (rest.take taken ++ later) = .ok (argument, taken) ∧
      (rest.take taken).length = taken ∧
      taken = if e.takesArgument && inline.isNone then 1 else 0 := by
  unfold argumentOf at argued ⊢
  split at argued
  · rename_i takes
    split at argued
    · cases argued
      simp [takes]
    · cases argued
      simp [takes]
    · cases argued
  · rename_i flag
    split at argued
    · cases argued
    · rename_i plain
      cases argued
      have none : inline = none := by simpa using plain
      simp [flag, none]

/-- An occurrence takes as many tokens as its option, and is the same after other options and in
front of other tokens. -/
theorem occurrence_again (read : g.occurrence seen inverted token rest = .ok (o, taken)) :
    taken = g.argumentCount token ∧ (rest.take taken).length = taken ∧
      ∀ (other : Register) (later : List String),
        other.check g.extension g.table o.entry = .ok () →
          g.occurrence other inverted token (rest.take taken ++ later) = .ok (o, taken) := by
  obtain ⟨e, inline, argument, operand, entry, -, allowed, argued, converted, rfl⟩ :=
    occurrence_ok read
  obtain ⟨-, length, count⟩ := argumentOf_take argued []
  refine ⟨?_, length, fun other later free => ?_⟩
  · rw [count, argumentCount, entry]
  · have upright : (inverted && !e.invertible) = false := by
      cases turned : inverted with
      | false => rfl
      | true => simp [allowed turned]
    have argued_again := (argumentOf_take argued later).1
    simp only [occurrence, entry, free, upright, argued_again, converted, bind, Except.bind, pure,
      Except.pure]
    rfl

theorem reads_of_occurrence (plain : token ≠ "!")
    (read : g.occurrence seen inverted token rest = .ok (o, taken)) :
    g.Reads ((if inverted then ["!"] else []) ++ token :: rest.take taken) o := by
  obtain ⟨-, length, again⟩ := occurrence_again read
  intro other later free
  have option : g.readFrom other inverted (token :: (rest.take taken ++ later)) =
      ⟨o :: (g.readFrom (other.add o.entry) false later).occurrences,
        (g.readFrom (other.add o.entry) false later).ending⟩ := by
    have dropped : (rest.take taken ++ later).drop taken = later := by
      rw [List.drop_append_of_le_length (Nat.le_of_eq length.symm),
        List.drop_of_length_le (Nat.le_of_eq length)]
      rfl
    rw [readFrom, if_neg plain, again other later free]
    simp only [dropped]
  cases inverted with
  | false => exact option
  | true =>
    -- The mark is a token of the piece, but it is read before the option rather than with it.
    have mark : (if true then ["!"] else []) ++ token :: rest.take taken ++ later =
        "!" :: token :: (rest.take taken ++ later) := rfl
    rw [mark, readFrom, if_pos rfl, if_neg (by simp)]
    exact option

theorem reads_cutFrom (ended : (g.readFrom seen inverted tokens).ending = .ok final) :
    List.Forall₂ g.Reads (g.cutFrom (if inverted then ["!"] else []) tokens)
      (g.readFrom seen inverted tokens).occurrences := by
  fun_induction readFrom g seen inverted tokens with
  | case1 seen inverted =>
    cases inverted with
    | false =>
      rw [cutFrom]
      exact .nil
    | true => cases ended
  | case2 => cases ended
  | case3 =>
    rename_i upright ih
    rw [cutFrom, if_pos rfl, if_neg upright]
    exact ih ended
  | case4 => cases ended
  | case5 seen inverted token rest plain o taken read reading ih =>
    obtain ⟨count, -, -⟩ := occurrence_again read
    rw [cutFrom, if_neg plain, ← count]
    exact .cons (reads_of_occurrence plain read) (ih ended)

theorem readFrom_pieces_append {pieces : List (List String)} {occurrences : List Occurrence}
    (reads : List.Forall₂ g.Reads pieces occurrences) (chain : g.Chain seen occurrences final)
    (rest : List String) :
    g.readFrom seen false (pieces.flatten ++ rest) =
      ⟨occurrences ++ (g.readFrom final false rest).occurrences,
        (g.readFrom final false rest).ending⟩ := by
  induction reads generalizing seen with
  | nil =>
    cases chain
    rfl
  | cons read _ ih =>
    cases chain with
    | cons admitted later =>
      rw [List.flatten_cons, List.append_assoc, read seen _ admitted.free, ih later]
      rfl

theorem readFrom_pieces {pieces : List (List String)} {occurrences : List Occurrence}
    (reads : List.Forall₂ g.Reads pieces occurrences) (chain : g.Chain seen occurrences final) :
    g.readFrom seen false pieces.flatten = ⟨occurrences, .ok final⟩ := by
  have read := readFrom_pieces_append reads chain []
  simpa [readFrom] using read

theorem readFrom_append {occurrences : List Occurrence}
    (read : g.readFrom seen false tokens = ⟨occurrences, .ok final⟩) (rest : List String) :
    g.readFrom seen false (tokens ++ rest) =
      ⟨occurrences ++ (g.readFrom final false rest).occurrences,
        (g.readFrom final false rest).ending⟩ := by
  have ended : (g.readFrom seen false tokens).ending = .ok final := by rw [read]
  have reads := reads_cutFrom ended
  have chain := chain_readFrom ended
  have cut : (g.cutFrom [] tokens).flatten = tokens := flatten_cutFrom
  rw [read] at reads chain
  rw [← cut]
  exact readFrom_pieces_append reads chain rest

def Mutual (table : List Entry) : Prop :=
  ∀ e ∈ table, ∀ other ∈ table, Apart e other → Apart other e

instance (table : List Entry) : Decidable (Mutual table) :=
  inferInstanceAs (Decidable (∀ e ∈ table, ∀ other ∈ table, Apart e other → Apart other e))

theorem admits_swap {a b : Occurrence} (either : Mutual g.table) (first : g.Admits seen a)
    (second : g.Admits (seen.add a.entry) b) :
    Apart a.entry b.entry ∧ g.Admits seen b ∧ g.Admits (seen.add b.entry) a := by
  obtain ⟨free, apart⟩ := Register.add_misses.mp (Register.check_eq_ok_iff.mp second.free)
  have turned := either _ first.entry _ second.entry apart
  have own := Register.check_eq_ok_iff.mp first.free
  exact ⟨apart, { second with free := Register.check_eq_ok_iff.mpr free },
    { first with free := Register.check_eq_ok_iff.mpr (Register.add_misses.mpr ⟨own, turned⟩) }⟩

end Grammar

namespace Extension

theorem replace_comm {α : Type} {A B : Prop} {x y : Option α} (left : x = none ∨ A)
    (right : y = none ∨ B) (apart : ¬ (A ∧ B)) (z : α) :
    x.getD (y.getD z) = y.getD (x.getD z) := by
  rcases left with rfl | a
  · rfl
  · rcases right with rfl | b
    · rfl
    · exact absurd ⟨a, b⟩ apart

variable {host : Context} {a b : Occurrence} {x y : Extension}

/-- Where an option that is taken makes the same edit of every record of the revision, and the edits
of two options commute, the options may be taken in either order. -/
theorem swap_of_edits {σ δ : Type} (wrap : σ → Extension) (on : δ → σ → σ)
    (Of : δ → Occurrence → Prop) {m : σ}
    (edits : ∀ {m : σ} {o : Occurrence} {next : Extension},
      (wrap m).apply host o = (next, .ok ()) → ∃ d, Of d o ∧
        ∀ k, (wrap k).revision = (wrap m).revision →
          (wrap k).apply host o = (wrap (on d k), .ok ()))
    (revision : ∀ d k, (wrap (on d k)).revision = (wrap k).revision)
    (comm : ∀ {c d}, Of c a → Of d b → ∀ k, on c (on d k) = on d (on c k))
    (first : (wrap m).apply host a = (x, .ok ())) (second : x.apply host b = (y, .ok ())) :
    ∃ z, (wrap m).apply host b = (z, .ok ()) ∧ z.apply host a = (y, .ok ()) := by
  obtain ⟨c, of_a, made_a⟩ := edits first
  cases first.symm.trans (made_a m rfl)
  obtain ⟨d, of_b, made_b⟩ := edits second
  have own := revision c m
  cases second.symm.trans (made_b (on c m) rfl)
  refine ⟨wrap (on d m), made_b m own.symm, ?_⟩
  rw [made_a (on d m) (revision d m), comm of_a of_b]

theorem swap_of_commit {σ δ : Type} (wrap : σ → Extension) (on : δ → σ → σ)
    (Of : δ → Occurrence → Prop) {m : σ} {step : σ → Occurrence → Except RuleError σ}
    (applies : ∀ k o, (wrap k).apply host o = commit (wrap k) ((step k o).map wrap))
    (edits : ∀ {m : σ} {o : Occurrence} {next : σ}, step m o = .ok next → ∃ d, Of d o ∧
      ∀ k, (wrap k).revision = (wrap m).revision → step k o = .ok (on d k))
    (revision : ∀ d k, (wrap (on d k)).revision = (wrap k).revision)
    (comm : ∀ {c d}, Of c a → Of d b → ∀ k, on c (on d k) = on d (on c k))
    (first : (wrap m).apply host a = (x, .ok ())) (second : x.apply host b = (y, .ok ())) :
    ∃ z, (wrap m).apply host b = (z, .ok ()) ∧ z.apply host a = (y, .ok ()) := by
  refine swap_of_edits wrap on Of ?_ revision comm first second
  intro m o next ok
  rw [applies] at ok
  obtain ⟨made, applied, -⟩ := map_eq_ok_iff.mp (commit_ok ok)
  obtain ⟨d, of_o, made_again⟩ := edits applied
  refine ⟨d, of_o, fun k same => ?_⟩
  rw [applies, made_again k same]
  rfl

end Extension

end FilterRecord
