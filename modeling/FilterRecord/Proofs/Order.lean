/- Proofs/Order
   digest: The occurrences of an accepted rule may come in any order, and leave the same record. -/

import Mathlib.Data.List.Perm.Basic
import FilterRecord.Proofs.Arguments.Writing
import FilterRecord.Proofs.Decoding
import FilterRecord.Proofs.Match.Edits
import FilterRecord.Proofs.Target.Edits

set_option autoImplicit false
set_option relaxedAutoImplicit false

namespace FilterRecord

open Options (Apart Entry Occurrence Register)

namespace Extension

variable {host : Context} {ext next x y last : Extension} {a b o : Occurrence}
  {seen final : Register} {g : Grammar}

theorem table_apply (ok : ext.apply host o = (next, .ok ())) : next.table = ext.table := by
  cases ext with
  | mark | classify | ipMark | reversePath =>
    obtain ⟨made, -, rfl⟩ := map_eq_ok_iff.mp (commit_ok ok)
    rfl
  | connTrack t =>
    obtain ⟨made, applied, rfl⟩ := map_connTrack_ok ok
    have asked := ConnTrack.viaAlias_step (ConnTrack.step_of_apply applied)
    exact congrArg (fun viaAlias => if viaAlias then [] else ConnTrack.fullTable) asked
  | socket m =>
    obtain ⟨made, applied, rfl⟩ := map_eq_ok_iff.mp (commit_ok ok)
    have revision := SocketMatch.revision_step (SocketMatch.step_of_apply applied)
    exact congrArg (fun revision => if revision = 0 then [] else SocketMatch.fullTable) revision

private theorem none_apart : (∀ e ∈ Mark.table, ∀ other ∈ Mark.table, ¬ Apart e other) ∧
    ∀ e ∈ Classify.table, ∀ other ∈ Classify.table, ¬ Apart e other := by
  decide

/-- Of two options that may follow one another, either may be taken first, and both leave the same
record. -/
theorem apply_swap (row_a : a.entry ∈ ext.table) (row_b : b.entry ∈ ext.table)
    (apart : Apart a.entry b.entry) (first : ext.apply host a = (x, .ok ()))
    (second : x.apply host b = (y, .ok ())) :
    ∃ z, ext.apply host b = (z, .ok ()) ∧ z.apply host a = (y, .ok ()) := by
  cases ext with
  | mark m => exact absurd apart (none_apart.1 _ row_a _ row_b)
  | classify c => exact absurd apart (none_apart.2 _ row_a _ row_b)
  | ipMark m =>
    refine swap_of_commit .ipMark IpMark.Edit.on IpMark.Edit.Of (fun _ _ => rfl)
      IpMark.exists_edit ?_ (fun of_a of_b => IpMark.Edit.on_comm of_a of_b row_a row_b apart)
      first second
    intro d k
    cases k <;> rfl
  | connTrack t =>
    -- A zone option that is refused still leaves its direction, so this is no commit.
    have within := t.table_subset
    refine swap_of_edits .connTrack ConnTrack.Edit.on ConnTrack.Edit.Of ?_ (fun _ _ => rfl)
      (fun of_a of_b => ConnTrack.Edit.on_comm of_a of_b (within row_a) (within row_b) apart)
      first second
    intro t o next ok
    obtain ⟨made, applied, rfl⟩ := map_connTrack_ok ok
    obtain ⟨d, of_o, edits⟩ := ConnTrack.exists_edit applied
    refine ⟨d, of_o, fun k same => ?_⟩
    simp only [apply, edits k same]
    rfl
  | socket m =>
    have within := m.table_subset
    exact swap_of_commit .socket SocketMatch.Edit.on SocketMatch.Edit.Of (fun _ _ => rfl)
      SocketMatch.exists_edit (fun _ _ => rfl)
      (fun of_a of_b => SocketMatch.Edit.on_comm of_a of_b (within row_a) apart) first second
  | reversePath m =>
    exact swap_of_commit .reversePath ReversePath.Edit.on ReversePath.Edit.Of (fun _ _ => rfl)
      ReversePath.exists_edit (fun _ _ => rfl)
      (fun of_a of_b => ReversePath.Edit.on_comm of_a of_b row_a apart) first second

/-- Occurrences that may be taken in one order may be taken in any other. -/
theorem run_perm {occurrences others : List Occurrence} (perm : occurrences.Perm others)
    (either : Grammar.Mutual g.table) (same : ext.table = g.table)
    (chain : g.Chain seen occurrences final)
    (ran : ext.applyAll host occurrences = (last, .ok ())) :
    g.Chain seen others final ∧ ext.applyAll host others = (last, .ok ()) := by
  -- A swap may come after any options, so the options seen and the record before it are general.
  induction perm generalizing seen ext final last with
  | nil => exact ⟨chain, ran⟩
  | cons o _ ih =>
    cases chain with
    | cons admitted chain =>
      obtain ⟨next, taken, ran⟩ := applyAll_cons_ok_iff.mp ran
      obtain ⟨chain, ran⟩ := ih ((table_apply taken).trans same) chain ran
      exact ⟨.cons admitted chain, applyAll_cons_ok_iff.mpr ⟨next, taken, ran⟩⟩
  | swap b a rest =>
    cases chain with
    | cons first chain =>
      cases chain with
      | cons second chain =>
        obtain ⟨x, taken_a, ran⟩ := applyAll_cons_ok_iff.mp ran
        obtain ⟨y, taken_b, ran⟩ := applyAll_cons_ok_iff.mp ran
        obtain ⟨apart, first_b, second_a⟩ := Grammar.admits_swap either first second
        obtain ⟨z, taken_b, taken_a⟩ := apply_swap (same ▸ first.entry) (same ▸ second.entry) apart
          taken_a taken_b
        rw [Register.add_right_comm] at chain
        exact ⟨.cons first_b (.cons second_a chain),
          applyAll_cons_ok_iff.mpr ⟨z, taken_b, applyAll_cons_ok_iff.mpr ⟨y, taken_a, ran⟩⟩⟩
  | trans _ _ ih_first ih_second =>
    obtain ⟨chain, ran⟩ := ih_first same chain ran
    exact ih_second same chain ran

theorem mutual_table (ext : Extension) : Grammar.Mutual ext.table := by
  refine forall_table ?_ ?_ ?_ ?_ ?_ ?_ ?_ ext <;> decide

/-- The occurrences of an accepted rule are accepted in every order, with the same options seen, and
leave the same record. -/
theorem applyTokens_pieces {words : List String} {pieces : List (List String)}
    (either : Grammar.Mutual ext.table)
    (accepted : ext.applyTokens host words = (last, .ok final))
    (perm : pieces.Perm (ext.grammar.cut words)) :
    ext.applyTokens host pieces.flatten = (last, .ok final) := by
  obtain ⟨ran, ended, complete⟩ := applyTokens_ok_iff.mp accepted
  have reads : List.Forall₂ ext.grammar.Reads (ext.grammar.cut words)
      (ext.grammar.read words).occurrences := Grammar.reads_cutFrom ended
  have chain : ext.grammar.Chain .empty (ext.grammar.read words).occurrences final :=
    Grammar.chain_readFrom ended
  obtain ⟨others, reads, perm⟩ := List.perm_comp_forall₂ perm reads
  obtain ⟨chain, ran⟩ := run_perm perm.symm either rfl chain ran
  have read : ext.grammar.read pieces.flatten = ⟨others, .ok final⟩ :=
    Grammar.readFrom_pieces reads chain
  refine applyTokens_ok_iff.mpr ?_
  rw [read]
  exact ⟨ran, rfl, complete⟩

end Extension

namespace Registration

variable {r : Registration} {host : Context} {words : List String} {ext : Extension}
  {final : Register}

/-- A rule that is accepted consists of its occurrences, and is accepted with them in any order,
with the same options seen and the same record. -/
theorem applyTokens_any_order (accepted : r.create.applyTokens host words = (ext, .ok final)) :
    (r.create.grammar.cut words).flatten = words ∧
      ∀ pieces : List (List String), pieces.Perm (r.create.grammar.cut words) →
        r.create.applyTokens host pieces.flatten = (ext, .ok final) :=
  ⟨Grammar.flatten_cutFrom, fun _ perm =>
    Extension.applyTokens_pieces r.create.mutual_table accepted perm⟩

/-- An exclamation mark that is an argument moves with its option. -/
theorem applyTokens_any_order_mark :
    ∃ r ∈ Registry.all, ∃ ext final,
      r.create.applyTokens .empty ["--helper", "!", "--zone", "5"] = (ext, .ok final) ∧
      r.create.grammar.cut ["--helper", "!", "--zone", "5"] = [["--helper", "!"], ["--zone", "5"]] ∧
      r.create.applyTokens .empty ["--zone", "5", "--helper", "!"] = (ext, .ok final) := by
  have registered : (⟨"CT", "CT", .target, 1, .connTrack⟩ : Registration) ∈ Registry.all := by
    decide
  obtain ⟨final, accepted⟩ : ∃ final,
      (create ⟨"CT", "CT", .target, 1, .connTrack⟩).applyTokens .empty
        ["--helper", "!", "--zone", "5"] =
          (.connTrack ⟨1, 0, 5, 0, 0, "!", "", false⟩, .ok final) := ⟨_, by with_unfolding_all rfl⟩
  have cut : (create ⟨"CT", "CT", .target, 1, .connTrack⟩).grammar.cut
      ["--helper", "!", "--zone", "5"] = [["--helper", "!"], ["--zone", "5"]] := by
    with_unfolding_all rfl
  have perm : [["--zone", "5"], ["--helper", "!"]].Perm
      ((create ⟨"CT", "CT", .target, 1, .connTrack⟩).grammar.cut
        ["--helper", "!", "--zone", "5"]) := by
    rw [cut]
    exact .swap _ _ _
  have swapped := (applyTokens_any_order accepted).2 _ perm
  exact ⟨_, registered, _, final, accepted, cut, swapped⟩

end Registration

end FilterRecord
