/- Proofs/ExitCode
   digest: The exit code of a refused rule: all refusals but two blame its options. -/

import FilterRecord.Proofs.Arguments.Order
import FilterRecord.Proofs.Refusal
import FilterRecord.Proofs.Registry
import FilterRecord.Proofs.Target.Operations
import FilterRecord.Rule

set_option autoImplicit false
set_option relaxedAutoImplicit false

namespace FilterRecord

open Options (Entry Occurrence Operand Register)

def BlamesOptions {α : Type} (x : Except RuleError α) : Prop :=
  ∀ e, x = .error e → e.exitCode = 2

section Blames

variable {α β : Type} {x : Except RuleError α} {a : α} {e : RuleError}

@[simp]
theorem blames_ok : BlamesOptions (.ok a) := by
  rintro _ ⟨⟩

@[simp]
theorem blames_error_iff : BlamesOptions (.error e : Except RuleError α) ↔ e.exitCode = 2 := by
  constructor
  · intro blames
    exact blames e rfl
  · rintro code _ ⟨⟩
    exact code

@[simp]
theorem exitCode_unsupported (o : Occurrence) : o.unsupported.exitCode = 2 := rfl

@[simp]
theorem exitCode_badValue (o : Occurrence) (text : String) : (o.badValue text).exitCode = 2 := rfl

theorem blames_map {f : α → β} (blames : BlamesOptions x) : BlamesOptions (x.map f) :=
  fun e failed => blames e (map_eq_error_iff.mp failed)

theorem blames_bind {f : α → Except RuleError β} (first : BlamesOptions x)
    (later : ∀ a, BlamesOptions (f a)) : BlamesOptions (x >>= f) := by
  cases x with
  | error e => exact blames_error_iff.mpr (first e rfl)
  | ok a => exact later a

theorem blames_commit {state : α} (blames : BlamesOptions x) :
    BlamesOptions (Options.commit state x).2 := by
  cases x with
  | error e => exact blames_error_iff.mpr (blames e rfl)
  | ok next => exact blames_ok

end Blames

/-! ## What reads an option -/

theorem blames_check (seen : Register) (extension : String) (table : List Entry) (e : Entry) :
    BlamesOptions (seen.check extension table e) := by
  unfold Register.check
  dsimp only
  split_ifs <;> simp [RuleError.exitCode]

theorem blames_bounded (extension : String) (e : Entry) (high : Nat) (text : String) :
    BlamesOptions (Operand.bounded extension e high text) := by
  unfold Operand.bounded
  split <;> simp [RuleError.exitCode]

theorem blames_read (extension : String) (e : Entry) (argument : Option String) :
    BlamesOptions (Operand.read extension e argument) := by
  unfold Operand.read
  split
  · unfold Operand.ofText
    split
    case h_1 | h_6 => exact blames_ok
    case h_7 => split <;> simp [RuleError.exitCode]
    all_goals exact blames_map (blames_bounded _ _ _ _)
  · exact blames_ok

namespace Grammar

variable {g : Grammar} {seen : Register} {inverted : Bool} {rest tokens : List String}
  {e : RuleError}

theorem blames_entryOf (g : Grammar) (token : String) : BlamesOptions (g.entryOf token) := by
  unfold entryOf
  split
  · exact blames_error_iff.mpr rfl
  · split <;> simp [RuleError.exitCode]

theorem blames_argumentOf (g : Grammar) (e : Entry) (inline : Option String)
    (rest : List String) : BlamesOptions (g.argumentOf e inline rest) := by
  unfold argumentOf
  split
  · split <;> simp [RuleError.exitCode]
  · split <;> simp [RuleError.exitCode]

theorem blames_occurrence (g : Grammar) (seen : Register) (inverted : Bool) (token : String)
    (rest : List String) : BlamesOptions (g.occurrence seen inverted token rest) := by
  refine blames_bind (g.blames_entryOf token) fun row => ?_
  obtain ⟨e, inline⟩ := row
  refine blames_bind (blames_check seen g.extension g.table e) fun _ => ?_
  dsimp only
  split
  · exact blames_error_iff.mpr rfl
  · refine blames_bind (g.blames_argumentOf e inline rest) fun argument => ?_
    exact blames_bind (blames_read g.extension e argument.1) fun _ => blames_ok

/-- The tokens of a mark that no option follows: at the end, or in front of another mark. -/
inductive StrayMark : List String → Prop
  | last : StrayMark ["!"]
  | double (rest : List String) : StrayMark ("!" :: "!" :: rest)

theorem readFrom_stray (g : Grammar) (seen : Register) (stray : StrayMark rest) :
    ∃ e, g.readFrom seen false rest = ⟨[], .error e⟩ ∧ e.exitCode = 1 := by
  cases stray with
  | last => exact ⟨.danglingInversion g.extension, by simp [readFrom], rfl⟩
  | double rest => exact ⟨.repeatedInversion g.extension, by simp [readFrom], rfl⟩

theorem readFrom_error (ended : (g.readFrom seen inverted tokens).ending = .error e) :
    e.exitCode = 2 ∨ ∃ taken rest final,
      (if inverted then ["!"] else []) ++ tokens = taken ++ rest ∧ StrayMark rest ∧
        g.readFrom seen false taken =
          ⟨(g.readFrom seen inverted tokens).occurrences, .ok final⟩ := by
  -- A mark that has been read is put back in front, so that the tokens can be cut before it.
  fun_induction readFrom g seen inverted tokens with
  | case1 seen inverted =>
    cases inverted with
    | false => cases ended
    | true => exact .inr ⟨[], ["!"], seen, rfl, .last, by simp [readFrom]⟩
  | case2 seen rest =>
    exact .inr ⟨[], "!" :: "!" :: rest, seen, rfl, .double rest, by simp [readFrom]⟩
  | case3 =>
    rename_i upright ih
    rw [if_neg upright]
    exact ih ended
  | case4 =>
    rename_i failed
    cases ended
    exact .inl (g.blames_occurrence _ _ _ _ _ failed)
  | case5 seen inverted token rest plain o count read reading ih =>
    rcases ih ended with options | ⟨taken, last, final, cut, stray, before⟩
    · exact .inl options
    · have piece := reads_of_occurrence plain read seen taken (admits_of_occurrence read).free
      rw [before] at piece
      refine .inr ⟨_, last, final, ?_, stray, piece⟩
      have parts : rest.drop count = taken ++ last := cut
      rw [List.append_assoc, ← parts]
      simp

end Grammar

/-! ## What takes an option -/

theorem Mark.blames_apply (m : Mark) (o : Occurrence) : BlamesOptions (m.apply o) := by
  cases stated : operation? o.entry.id o.operand with
  | none => simp [apply, stated]
  | some op =>
    rw [apply_eq_store stated]
    split <;> simp [RuleError.exitCode]

theorem Classify.blames_operation (c : Classify) (o : Occurrence) :
    BlamesOptions (c.operation o) := by
  unfold operation
  split
  case h_1 =>
    unfold readClass
    dsimp only
    split
    · simp
    · split
      · simp
      · split <;> simp
  all_goals simp

theorem Classify.blames_apply (c : Classify) (o : Occurrence) : BlamesOptions (c.apply o) := by
  cases stated : c.operation o with
  | error e => simpa [apply, stated] using c.blames_operation o e stated
  | ok op =>
    rw [apply_eq_store stated]
    split <;> simp [RuleError.exitCode]

theorem IpMark.blames_applyOperation (m : IpMark) (o : Occurrence) :
    BlamesOptions (m.applyOperation o) := by
  cases stated : operation? o.entry.id o.operand with
  | none => simp [applyOperation, stated]
  | some op =>
    rw [applyOperation_eq_store stated]
    split <;> simp [RuleError.exitCode]

theorem IpMark.blames_apply (m : IpMark) (o : Occurrence) : BlamesOptions (m.apply o) := by
  unfold apply
  split
  case h_1 => split_ifs <;> simp
  case h_2 | h_3 | h_4 => simp
  case h_5 | h_6 => cases m <;> simp
  case h_7 => exact m.blames_applyOperation o

namespace ConnTrack

theorem blames_applyZone (direction : UInt16) (t : ConnTrack) (o : Occurrence) :
    BlamesOptions (applyZone direction t o).2 := by
  unfold applyZone
  dsimp only
  split
  · simp
  · split <;> simp

theorem blames_readEvents (table : EventTable) (o : Occurrence) (list : String) :
    BlamesOptions (readEvents table o list) := by
  unfold readEvents
  split <;> simp

theorem blames_readName (what : String) (width : Nat) (o : Occurrence) (text : String) :
    BlamesOptions (readName what width o text) := by
  unfold readName
  split <;> simp

theorem blames_apply (t : ConnTrack) (o : Occurrence) : BlamesOptions (t.apply o).2 := by
  unfold apply
  split
  · simp
  · split
    case h_1 | h_9 => simp
    case h_2 | h_3 | h_4 => exact blames_applyZone _ t o
    case h_5 | h_6 => exact blames_commit (blames_map (blames_readEvents _ o _))
    case h_7 | h_8 => exact blames_commit (blames_map (blames_readName _ _ o _))

end ConnTrack

namespace SocketMatch

theorem blames_applyExtended (accounts : Accounts) (m : SocketMatch) (o : Occurrence) :
    BlamesOptions (m.applyExtended accounts o) := by
  unfold applyExtended
  split
  case h_1 | h_5 => simp
  case h_2 =>
    unfold applyState
    split <;> simp [badValue]
  case h_3 =>
    unfold applyUser
    split <;> simp [badValue]
  case h_4 =>
    unfold applyGroup
    split <;> simp [badValue]

theorem blames_apply (accounts : Accounts) (m : SocketMatch) (o : Occurrence) :
    BlamesOptions (m.apply accounts o) := by
  unfold apply
  split
  case h_1 | h_2 | h_3 => split_ifs <;> simp
  case h_4 =>
    split
    · simp
    · exact m.blames_applyExtended accounts o

end SocketMatch

theorem ReversePath.blames_apply (groups : DeviceGroups) (m : ReversePath) (o : Occurrence) :
    BlamesOptions (m.apply groups o) := by
  unfold apply
  split
  · simp
  · split
    case h_6 => split <;> simp
    all_goals simp

namespace Extension

variable {host : Context} {ext last : Extension} {words : List String} {e : RuleError}

theorem blames_apply (host : Context) (ext : Extension) (o : Occurrence) :
    BlamesOptions (ext.apply host o).2 := by
  cases ext with
  | mark m => exact blames_commit (blames_map (m.blames_apply o))
  | classify c => exact blames_commit (blames_map (c.blames_apply o))
  | ipMark m => exact blames_commit (blames_map (m.blames_apply o))
  | connTrack t => exact t.blames_apply o
  | socket m => exact blames_commit (blames_map (m.blames_apply host.accounts o))
  | reversePath m => exact blames_commit (blames_map (m.blames_apply host.deviceGroups o))

theorem blames_applyAll (host : Context) (ext : Extension) (options : List Occurrence) :
    BlamesOptions (ext.applyAll host options).2 := by
  induction options generalizing ext with
  | nil => exact blames_ok
  | cons o rest ih =>
    have first := ext.blames_apply host o
    rw [applyAll]
    split
    · exact ih _
    · rename_i next e failed
      rwa [failed] at first

theorem blames_finalCheck (ext : Extension) (seen : Register) :
    BlamesOptions (ext.finalCheck seen) := by
  have required {holds : Bool} {extension missing : String} :
      BlamesOptions (if holds then .ok () else .error (.missingOption extension missing)) := by
    split <;> simp [RuleError.exitCode]
  cases ext with
  | mark | classify | ipMark => exact required
  | connTrack | socket | reversePath => exact blames_ok

/-- A rule whose options are all taken up to a mark that no option follows. -/
def Strays (host : Context) (ext : Extension) (words : List String) : Prop :=
  ∃ taken rest, words = taken ++ rest ∧ Grammar.StrayMark rest ∧
    ∃ options seen last, ext.grammar.read taken = ⟨options, .ok seen⟩ ∧
      ext.applyAll host options = (last, .ok ())

theorem applyTokens_strays (strays : ext.Strays host words) :
    ∃ last e, ext.applyTokens host words = (last, .error e) ∧ e.exitCode = 1 := by
  obtain ⟨taken, rest, rfl, stray, options, seen, last, read, ran⟩ := strays
  obtain ⟨e, stopped, code⟩ := ext.grammar.readFrom_stray seen stray
  have all : ext.grammar.read (taken ++ rest) = ⟨options, .error e⟩ := by
    rw [Grammar.read, Grammar.readFrom_append read rest, stopped, List.append_nil]
  refine ⟨last, e, ?_, code⟩
  simp only [applyTokens, all, ran]

/-- A refused rule blames its options, unless it strays. -/
theorem exitCode_of_applyTokens (refused : ext.applyTokens host words = (last, .error e)) :
    (ext.Strays host words ∧ e.exitCode = 1) ∨ (¬ ext.Strays host words ∧ e.exitCode = 2) := by
  by_cases strays : ext.Strays host words
  · obtain ⟨_, _, stopped, code⟩ := applyTokens_strays strays
    cases refused.symm.trans stopped
    exact .inl ⟨strays, code⟩
  · refine .inr ⟨strays, ?_⟩
    rcases applyTokens_error refused with stopped | ⟨ran, ended | ⟨seen, -, incomplete⟩⟩
    · have blames := ext.blames_applyAll host (ext.grammar.read words).occurrences
      rw [stopped] at blames
      exact blames e rfl
    · rcases Grammar.readFrom_error ended with options | ⟨taken, rest, seen, cut, stray, read⟩
      · exact options
      · exact absurd ⟨taken, rest, cut, stray, _, seen, last, read, applyAll_ok_iff.mpr ran⟩ strays
    · exact last.blames_finalCheck seen e incomplete

end Extension

namespace Rule

variable {name : String} {revision : Option UInt8} {words : List String} {numeric : Bool}
  {host : Context} {e : RuleError}

/-- A refused rule has one of three exit codes: 3 where its name and revision are not registered,
1 where its options are taken up to a mark that no option follows, and 2 in all other cases. -/
theorem exitCode_of_refused (refused : parse name revision words numeric host = .error e) :
    (¬ Registry.Registered name revision ∧ e = .unknownExtension name revision ∧
      e.exitCode = 3) ∨
    (Registry.Registered name revision ∧ ∃ r, Registry.lookup name revision = .ok r ∧
      ((r.create.Strays host words ∧ e.exitCode = 1) ∨
        (¬ r.create.Strays host words ∧ e.exitCode = 2))) := by
  unfold parse at refused
  cases found : Registry.lookup name revision with
  | error failed =>
    rw [found] at refused
    cases refused
    obtain ⟨rfl, unknown⟩ := Registry.lookup_error found
    exact .inl ⟨unknown, rfl, rfl⟩
  | ok r =>
    rw [found] at refused
    refine .inr ⟨Registry.registered_of_lookup found, r, rfl, ?_⟩
    rcases ran : r.create.applyTokens host words with ⟨last, failed | seen⟩
    · simp only [bind, Except.bind, ran] at refused
      cases refused
      exact Extension.exitCode_of_applyTokens ran
    · simp only [bind, Except.bind, ran] at refused
      cases refused

theorem exitCode_of_refused_length : ∃ e,
    parse "rpfilter" (some 0) ["--loose", "!", "--prefixlen", "5"] false .empty = .error e ∧
      e.exitCode = 2 ∧ ∃ r, Registry.lookup "rpfilter" (some 0) = .ok r ∧
      ¬ r.create.Strays .empty ["--loose", "!", "--prefixlen", "5"] := by
  have refused : parse "rpfilter" (some 0) ["--loose", "!", "--prefixlen", "5"] false .empty =
      .error (.unsupportedOption "rpfilter" 0 "prefixlen" true) := by with_unfolding_all rfl
  rcases exitCode_of_refused refused with ⟨-, -, three⟩ | ⟨-, r, found, ⟨-, one⟩ | ⟨none, two⟩⟩
  · exact absurd three (by decide)
  · exact absurd one (by decide)
  · exact ⟨_, refused, two, r, found, none⟩

/-- A mark at the end of a rule, which is a mistake in its options, is not put down to them. -/
theorem exitCode_stray_mark : ∃ e, parse "MARK" (some 2) ["!"] false .empty = .error e ∧
    Registry.Registered "MARK" (some 2) ∧ e.exitCode = 1 :=
  ⟨.danglingInversion "MARK", by with_unfolding_all rfl, Registry.registered_of_lookup rfl, rfl⟩

end Rule

end FilterRecord
