/- Proofs/Arguments/Reading
   digest: What is read from a rule's tokens, and what every accepted rule keeps true. -/

import Mathlib.Tactic.Common
import FilterRecord.Arguments
import FilterRecord.Proofs.Outcome
import FilterRecord.Proofs.Text.Words

set_option autoImplicit false
set_option relaxedAutoImplicit false

namespace FilterRecord

open Text
open Options (Entry Occurrence Operand Register OperandKind)

namespace Grammar

/-- An occurrence that a grammar takes after the options of a register. -/
structure Admits (g : Grammar) (seen : Register) (o : Occurrence) : Prop where
  extension : o.extension = g.extension
  revision : o.revision = g.revision
  entry : o.entry ∈ g.table
  free : seen.check g.extension g.table o.entry = .ok ()
  invertible : o.inverted = true → o.entry.invertible = true
  argument : o.argument.isSome = o.entry.takesArgument
  operand : Operand.read g.extension o.entry o.argument = .ok o.operand

theorem Admits.argument_of_text {g : Grammar} {seen : Register} {o : Occurrence} {text : String}
    (h : g.Admits seen o) (operand : o.operand = .text text) : o.argument = some text := by
  have read := h.operand
  rw [operand] at read
  unfold Operand.read at read
  split at read
  · rename_i argument written
    rw [written]
    unfold Operand.ofText at read
    split at read
    case h_6 =>
      cases read
      rfl
    case h_1 => exact absurd read (by simp)
    case h_7 => split at read <;> exact absurd read (by simp)
    all_goals
      obtain ⟨_, _, converted⟩ := map_eq_ok_iff.mp read
      exact absurd converted (by simp)
  · exact absurd read (by simp)

/-- Occurrences in order, from one register to another, each taken where it stands. -/
inductive Chain (g : Grammar) : Register → List Occurrence → Register → Prop
  | nil (seen : Register) : Chain g seen [] seen
  | cons {seen final : Register} {o : Occurrence} {rest : List Occurrence} :
    g.Admits seen o → Chain g (seen.add o.entry) rest final → Chain g seen (o :: rest) final

theorem entryOf_mem {g : Grammar} {token : String} {e : Entry} {inline : Option String}
    (found : g.entryOf token = .ok (e, inline)) : e ∈ g.table := by
  unfold entryOf at found
  split at found
  · exact absurd found (by simp)
  · split at found
    · exact absurd found (by simp)
    · rename_i row match_row
      cases found
      exact List.mem_of_find?_eq_some match_row

theorem argumentOf_isSome {g : Grammar} {e : Entry} {inline argument : Option String}
    {rest : List String} {taken : Nat}
    (found : g.argumentOf e inline rest = .ok (argument, taken)) :
    argument.isSome = e.takesArgument := by
  unfold argumentOf at found
  split at found
  · rename_i takes
    rw [takes]
    split at found
    · cases found
      rfl
    · cases found
      rfl
    · exact absurd found (by simp)
  · rename_i flag
    split at found
    · exact absurd found (by simp)
    · cases found
      simpa using flag

theorem occurrence_ok {g : Grammar} {seen : Register} {inverted : Bool} {token : String}
    {rest : List String} {o : Occurrence} {taken : Nat}
    (read : g.occurrence seen inverted token rest = .ok (o, taken)) :
    ∃ e inline argument operand, g.entryOf token = .ok (e, inline) ∧
      seen.check g.extension g.table e = .ok () ∧ (inverted = true → e.invertible = true) ∧
      g.argumentOf e inline rest = .ok (argument, taken) ∧
      Operand.read g.extension e argument = .ok operand ∧
      o = ⟨g.extension, g.revision, e, argument, operand, inverted⟩ := by
  unfold occurrence at read
  obtain ⟨⟨e, inline⟩, entry, read⟩ := bind_eq_ok_iff.mp read
  obtain ⟨_, free, read⟩ := bind_eq_ok_iff.mp read
  split at read
  · exact absurd read throw_bind_ne_ok
  · rename_i allowed
    obtain ⟨⟨argument, count⟩, argued, read⟩ := bind_eq_ok_iff.mp read
    obtain ⟨operand, converted, read⟩ := bind_eq_ok_iff.mp read
    cases read
    exact ⟨e, inline, argument, operand, entry, free, by simpa using allowed, argued, converted,
      rfl⟩

theorem admits_of_occurrence {g : Grammar} {seen : Register} {inverted : Bool} {token : String}
    {rest : List String} {o : Occurrence} {taken : Nat}
    (read : g.occurrence seen inverted token rest = .ok (o, taken)) : g.Admits seen o := by
  obtain ⟨e, inline, argument, operand, entry, free, allowed, argued, converted, rfl⟩ :=
    occurrence_ok read
  exact ⟨rfl, rfl, entryOf_mem entry, free, allowed, argumentOf_isSome argued, converted⟩

theorem occurrence_of_parts {g : Grammar} {seen : Register} {token : String}
    {inline : Option String} {rest : List String} {o : Occurrence} {taken : Nat}
    (admitted : g.Admits seen o) (entry : g.entryOf token = .ok (o.entry, inline))
    (argued : g.argumentOf o.entry inline rest = .ok (o.argument, taken)) :
    g.occurrence seen o.inverted token rest = .ok (o, taken) := by
  have allowed : (o.inverted && !o.entry.invertible) = false := by
    cases inverted : o.inverted with
    | false => rfl
    | true => simp [admitted.invertible inverted]
  simp only [occurrence, entry, admitted.free, allowed, argued, admitted.operand, bind, Except.bind,
    pure, Except.pure]
  rw [← admitted.extension, ← admitted.revision]
  rfl

theorem chain_readFrom {g : Grammar} {seen final : Register} {inverted : Bool}
    {tokens : List String} (ended : (g.readFrom seen inverted tokens).ending = .ok final) :
    g.Chain seen (g.readFrom seen inverted tokens).occurrences final := by
  fun_induction readFrom g seen inverted tokens with
  | case1 =>
    split at ended
    · exact absurd ended (by simp)
    · cases ended
      exact .nil _
  | case2 => exact absurd ended (by simp)
  | case3 =>
    rename_i ih
    exact ih ended
  | case4 => exact absurd ended (by simp)
  | case5 =>
    rename_i read _ ih
    exact .cons (admits_of_occurrence read) (ih ended)

theorem admits_of_mem {g : Grammar} {seen : Register} {inverted : Bool} {tokens : List String}
    {o : Occurrence} (member : o ∈ (g.readFrom seen inverted tokens).occurrences) :
    ∃ before, g.Admits before o := by
  fun_induction readFrom g seen inverted tokens with
  | case1 => exact absurd member (by simp)
  | case2 => exact absurd member (by simp)
  | case3 =>
    rename_i ih
    exact ih member
  | case4 => exact absurd member (by simp)
  | case5 =>
    rename_i read _ ih
    rcases List.mem_cons.mp member with rfl | member
    · exact ⟨_, admits_of_occurrence read⟩
    · exact ih member

def Spelled (tokens : List String) (text : String) : Prop :=
  ∀ c ∈ text.toList, ∃ t ∈ tokens, c ∈ t.toList

theorem spelled_mono {few many : List String} {text : String} (sub : few ⊆ many)
    (h : Spelled few text) : Spelled many text := by
  intro c hc
  obtain ⟨t, ht, member⟩ := h c hc
  exact ⟨t, sub ht, member⟩

private theorem spelled_nameOf? {token name argument : String}
    (named : nameOf? token = some (name, some argument)) : Spelled [token] argument := by
  unfold nameOf? at named
  split at named
  · rename_i body shape
    split at named
    · rename_i before after cut
      cases named
      intro c hc
      rw [String.toList_ofList] at hc
      refine ⟨token, by simp, ?_⟩
      rw [shape, (splitFirst_eq_some_iff.mp cut).1]
      simp [hc]
    · exact absurd named (by simp)
  · exact absurd named (by simp)

private theorem spelled_entryOf {g : Grammar} {token argument : String} {e : Entry}
    (found : g.entryOf token = .ok (e, some argument)) : Spelled [token] argument := by
  unfold entryOf at found
  split at found
  · exact absurd found (by simp)
  · rename_i name inline named
    split at found
    · exact absurd found (by simp)
    · cases found
      exact spelled_nameOf? named

private theorem spelled_occurrence {g : Grammar} {seen : Register} {inverted : Bool}
    {token argument : String} {rest : List String} {o : Occurrence} {taken : Nat}
    (read : g.occurrence seen inverted token rest = .ok (o, taken))
    (written : o.argument = some argument) : Spelled (token :: rest) argument := by
  obtain ⟨e, inline, _, operand, entry, -, -, argued, -, rfl⟩ := occurrence_ok read
  cases written
  unfold argumentOf at argued
  split at argued
  · split at argued
    · cases argued
      exact spelled_mono (by simp) (spelled_entryOf entry)
    · rename_i first others
      cases argued
      exact fun c hc => ⟨argument, by simp, hc⟩
    · exact absurd argued (by simp)
  · split at argued
    · exact absurd argued (by simp)
    · exact absurd argued (by simp)

theorem spelled_argument {g : Grammar} {seen : Register} {inverted : Bool} {tokens : List String}
    {o : Occurrence} {argument : String}
    (member : o ∈ (g.readFrom seen inverted tokens).occurrences)
    (written : o.argument = some argument) : Spelled tokens argument := by
  fun_induction readFrom g seen inverted tokens with
  | case1 => exact absurd member (by simp)
  | case2 => exact absurd member (by simp)
  | case3 =>
    rename_i ih
    exact spelled_mono (List.subset_cons_self _ _) (ih member)
  | case4 => exact absurd member (by simp)
  | case5 =>
    rename_i read _ ih
    rcases List.mem_cons.mp member with rfl | member
    · exact spelled_occurrence read written
    · refine spelled_mono ?_ (ih member)
      exact List.Subset.trans (List.drop_subset _ _) (List.subset_cons_self _ _)

end Grammar

namespace Extension

theorem applyAll_cons_ok_iff {host : Context} {ext last : Extension} {o : Occurrence}
    {rest : List Occurrence} : ext.applyAll host (o :: rest) = (last, .ok ()) ↔
      ∃ next, ext.apply host o = (next, .ok ()) ∧ next.applyAll host rest = (last, .ok ()) := by
  rw [applyAll]
  constructor
  · intro ran
    split at ran
    · rename_i next taken
      exact ⟨next, taken, ran⟩
    · cases ran
  · rintro ⟨next, taken, ran⟩
    rw [taken]
    exact ran

/-- What one option keeps true, from where it is taken to the record after it, all options of an
accepted rule keep true. -/
theorem applyAll_induction {host : Context} {g : Grammar} {taken : List Occurrence}
    {P : List Occurrence → Register → Extension → Prop}
    (step : ∀ {before : List Occurrence} {seen : Register} {ext next : Extension}
      {o : Occurrence}, P before seen ext → o ∈ taken → g.Admits seen o →
      ext.apply host o = (next, .ok ()) → P (before ++ [o]) (seen.add o.entry) next)
    {before occurrences : List Occurrence} {seen final : Register} {ext last : Extension}
    (chain : g.Chain seen occurrences final) (within : occurrences ⊆ taken)
    (start : P before seen ext) (ran : ext.applyAll host occurrences = (last, .ok ())) :
    P (before ++ occurrences) final last := by
  -- Along the chain, so that the register goes on together with the record.
  induction chain generalizing before ext with
  | nil seen =>
    cases ran
    simpa using start
  | @cons seen final o rest admitted chain ih =>
    unfold applyAll at ran
    split at ran
    · rename_i next applied
      have stepped := step start (within (by simp)) admitted applied
      simpa using ih (List.subset_of_cons_subset within) stepped ran
    · exact absurd ran (by simp)

/-- What each of some options keeps true, taken or refused, all of them keep true, up to the first
that is refused. -/
theorem applyAll_keeps {host : Context} {P : Extension → Prop} {occurrences : List Occurrence}
    {ext : Extension} (start : P ext)
    (kept : ∀ o ∈ occurrences, ∀ current, P current → P (current.apply host o).1) :
    P (ext.applyAll host occurrences).1 := by
  induction occurrences generalizing ext with
  | nil => exact start
  | cons o rest ih =>
    have stepped := kept o (by simp) ext start
    rw [applyAll]
    split
    · rename_i next applied
      rw [applied] at stepped
      exact ih stepped fun p member => kept p (by simp [member])
    · rename_i next e applied
      rwa [applied] at stepped

theorem applyTokens_keeps {host : Context} {P : Extension → Prop} {ext : Extension}
    {tokens : List String} (start : P ext)
    (kept : ∀ seen o current, ext.grammar.Admits seen o → P current →
      P (current.apply host o).1) : P (ext.applyTokens host tokens).1 := by
  have ran : P (ext.applyAll host (ext.grammar.read tokens).occurrences).1 :=
    applyAll_keeps start fun o member current held =>
      let ⟨seen, admitted⟩ := Grammar.admits_of_mem member
      kept seen o current admitted held
  unfold applyTokens
  dsimp only
  split
  · rename_i next e taken
    rwa [taken] at ran
  · rename_i next taken
    rw [taken] at ran
    split <;> exact ran

/-- An extension led on through tokens after some options. -/
def resume (host : Context) (g : Grammar) (seen : Register) (ext : Extension)
    (tokens : List String) : Extension × Except RuleError Register :=
  let reading := g.readFrom seen false tokens
  match ext.applyAll host reading.occurrences with
  | (next, .error e) => (next, .error e)
  | (next, .ok ()) =>
    match reading.ending with
    | .error e => (next, .error e)
    | .ok seen => (next, (next.finalCheck seen).map fun _ => seen)

theorem applyTokens_eq_resume (host : Context) (ext : Extension) (tokens : List String) :
    ext.applyTokens host tokens = ext.resume host ext.grammar .empty tokens := rfl

/-- The rest of a rule is accepted when each of its options is, no token is left over and none is
missing. -/
theorem resume_ok_iff {host : Context} {g : Grammar} {ext last : Extension} {tokens : List String}
    {seen final : Register} : ext.resume host g seen tokens = (last, .ok final) ↔
      ext.applyAll host (g.readFrom seen false tokens).occurrences = (last, .ok ()) ∧
      (g.readFrom seen false tokens).ending = .ok final ∧ last.finalCheck final = .ok () := by
  unfold resume
  dsimp only
  rcases ext.applyAll host (g.readFrom seen false tokens).occurrences with ⟨next, _ | _⟩
  · simp
  · rcases (g.readFrom seen false tokens).ending with _ | reached
    · simp
    · simp only [Prod.mk.injEq, map_eq_ok_iff, Except.ok.injEq]
      constructor
      · rintro ⟨rfl, _, ok, rfl⟩
        exact ⟨⟨rfl, trivial⟩, rfl, ok⟩
      · rintro ⟨⟨rfl, -⟩, rfl, ok⟩
        exact ⟨rfl, _, ok, rfl⟩

theorem applyTokens_ok_iff {host : Context} {ext last : Extension} {tokens : List String}
    {seen : Register} : ext.applyTokens host tokens = (last, .ok seen) ↔
      ext.applyAll host (ext.grammar.read tokens).occurrences = (last, .ok ()) ∧
      (ext.grammar.read tokens).ending = .ok seen ∧ last.finalCheck seen = .ok () :=
  resume_ok_iff

theorem applyTokens_nil_iff {host : Context} {ext last : Extension} {seen : Register} :
    ext.applyTokens host [] = (last, .ok seen) ↔
      last = ext ∧ seen = .empty ∧ ext.finalCheck .empty = .ok () := by
  rw [applyTokens_ok_iff, Grammar.read, Grammar.readFrom]
  constructor
  · rintro ⟨ran, ended, complete⟩
    cases ran
    cases ended
    exact ⟨rfl, rfl, complete⟩
  · rintro ⟨rfl, rfl, complete⟩
    exact ⟨rfl, rfl, complete⟩

theorem applyTokens_induction {host : Context} {ext last : Extension} {tokens : List String}
    {final : Register} {P : List Occurrence → Register → Extension → Prop}
    (accepted : ext.applyTokens host tokens = (last, .ok final)) (start : P [] .empty ext)
    (step : ∀ {before : List Occurrence} {seen : Register} {current next : Extension}
      {o : Occurrence}, P before seen current → o ∈ (ext.grammar.read tokens).occurrences →
      ext.grammar.Admits seen o → current.apply host o = (next, .ok ()) →
      P (before ++ [o]) (seen.add o.entry) next) :
    P (ext.grammar.read tokens).occurrences final last := by
  obtain ⟨ran, ended, -⟩ := applyTokens_ok_iff.mp accepted
  have chain := Grammar.chain_readFrom ended
  exact applyAll_induction step chain (List.Subset.refl _) start ran

end Extension

end FilterRecord
