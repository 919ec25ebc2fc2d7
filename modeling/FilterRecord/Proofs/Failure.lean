/- Proofs/Failure
   digest: When the error of a failing run is told once and in the form of its log. -/

import FilterRecord.Command.Report
import FilterRecord.Proofs.Journal
import FilterRecord.Proofs.Log
import FilterRecord.Proofs.Outcome
import FilterRecord.Proofs.Text.Quoted

set_option autoImplicit false
set_option relaxedAutoImplicit false

namespace FilterRecord

open Log (lines)
open Text (Holds)
open Text.Quoted (Repertoire Verbatim)

namespace RuleError

theorem exitCode_ne_zero (e : RuleError) : e.exitCode ≠ 0 := by
  cases e <;> simp [exitCode]

/-- The errors that are noted by their wording, where others are noted by their parts. -/
def isWorded : RuleError → Bool
  | missingOption .. | repeatedInversion .. | danglingInversion .. | shortField .. | shortName ..
  | noStatement .. | resource .. | other .. => true
  | _ => false

theorem holds_inspect {repertoire : Repertoire} {e : RuleError} (worded : e.isWorded = true)
    (verbatim : Verbatim repertoire e.message) : Holds (e.inspect repertoire) e.message := by
  have quoted := Text.Quoted.holds_quote verbatim
  cases e with
  | missingOption extension text =>
    exact Text.Quoted.holds_record (List.mem_cons_of_mem _ List.mem_cons_self) quoted _
  | repeatedInversion | danglingInversion | shortField | shortName | noStatement | resource
  | other => exact Text.Quoted.holds_around quoted _
  | _ => exact absurd worded Bool.false_ne_true

end RuleError

namespace Command

variable {repertoire : Repertoire} {paths : Paths} {files : Files} {env : Environment}
  {call : Invocation} {json : Bool} {events more : List Log.Event} {e : RuleError}

/-! ## The way to an error -/

/-- Why the map of device groups cannot be used, if it cannot. -/
def mapFault (paths : Paths) (files : Files) (call : Invocation) : Option DeviceGroups.LoadFault :=
  (DeviceGroups.ofOptionalFile (call.deviceGroups.getD paths.deviceGroups)
    files.deviceGroups).2

/-- Notes, and perhaps a warning about the map of device groups. -/
def Preliminary (paths : Paths) (files : Files) (call : Invocation) (events : List Log.Event) :
    Prop :=
  ∀ event ∈ events, (event.level = .debug ∨ event.level = .trace) ∨
    ∃ fault, mapFault paths files call = some fault ∧ event = Journal.mapWarning fault

theorem preliminary_of_notes (notes : Journal.Notes events) :
    Preliminary paths files call events :=
  fun event member => .inl (notes event member)

theorem Preliminary.append (first : Preliminary paths files call events)
    (second : Preliminary paths files call more) :
    Preliminary paths files call (events ++ more) :=
  List.forall_mem_append.mpr ⟨first, second⟩

theorem preliminary_hostNames (repertoire : Repertoire) (paths : Paths) (files : Files)
    (call : Invocation) :
    Preliminary paths files call (hostNames repertoire paths files call).1 := by
  have map : Preliminary paths files call
      [Journal.ofDeviceGroups (call.deviceGroups.getD paths.deviceGroups) files.deviceGroups] := by
    rcases Journal.ofDeviceGroups_cases (call.deviceGroups.getD paths.deviceGroups)
      files.deviceGroups with notes | ⟨fault, faulty, warned⟩
    · exact preliminary_of_notes notes
    · exact List.forall_mem_singleton.mpr (.inr ⟨fault, faulty, warned⟩)
  unfold hostNames
  dsimp only
  split
  · exact map.append (preliminary_of_notes (Journal.notes_ofAccounts _ _))
  · exact map

/-- The events of an action that fails are notes, but for a warning about the map of device
groups. -/
theorem preliminary_of_error
    (outcome : perform repertoire paths files json call = (events, .error e)) :
    Preliminary paths files call events := by
  have hosted := preliminary_hostNames repertoire paths files call
  have found (name : String) : Preliminary paths files call (Journal.ofLookup name call.revision) :=
    preliminary_of_notes (Journal.notes_ofLookup name call.revision)
  unfold perform at outcome
  split at outcome
  case h_1 name tokens _ =>
    rcases names : hostNames repertoire paths files call with ⟨loading, fault | host⟩
    all_goals
      rw [names] at outcome hosted
      obtain ⟨rfl, refused⟩ := Prod.mk.inj outcome
    · exact hosted
    · have unparsed := bind_pure_eq_error_iff.mp refused
      exact hosted.append (preliminary_of_notes (Journal.notes_ofParse unparsed))
  case h_2 name text _ =>
    split at outcome
    · exact (Prod.mk.inj outcome).1 ▸ found name
    · exact (Prod.mk.inj outcome).1 ▸ found name
    · rcases names : hostNames repertoire paths files call with ⟨loading, fault | host⟩
      all_goals
        rw [names] at outcome hosted
        obtain ⟨rfl, -⟩ := Prod.mk.inj outcome
      · exact (found name).append hosted
      · exact ((found name).append hosted).append
          (preliminary_of_notes (Journal.notes_ofRecord Journal.notes_ofView _ _ _))
  case h_3 name text _ =>
    split at outcome
    · exact (Prod.mk.inj outcome).1 ▸ found name
    · exact (Prod.mk.inj outcome).1 ▸ found name
    · exact (Prod.mk.inj outcome).1 ▸ (found name).append
        (preliminary_of_notes (Journal.notes_ofRecord Journal.notes_ofStatement _ _ _))
  case h_4 name _ => exact (Prod.mk.inj outcome).1 ▸ found name
  case h_5 => nomatch (Prod.mk.inj outcome).2

/-- All that a run logs before it tells its error: the events of the action, and the note about
the error itself. -/
def foretold (repertoire : Repertoire) (events : List Log.Event) (e : RuleError) :
    List Log.Event :=
  events ++ [failureNote repertoire e]

theorem preliminary_foretold
    (outcome : perform repertoire paths files json call = (events, .error e)) :
    Preliminary paths files call (foretold repertoire events e) :=
  (preliminary_of_error outcome).append
    (preliminary_of_notes (Journal.notes_singleton (.inl rfl)))

theorem ungrave_of_error
    (outcome : perform repertoire paths files json call = (events, .error e)) :
    ∀ event ∈ foretold repertoire events e, event.level ≠ .error := by
  intro event member
  rcases preliminary_foretold outcome event member with (level | level) | ⟨fault, -, rfl⟩
  · simp [level]
  · simp [level]
  · simp [Journal.mapWarning]

/-- The error of an action goes to the log or to the complaint, never to both. -/
theorem runInvocation_error
    (outcome : perform repertoire paths files (call.json || env.wantsJson) call =
      (events, .error e)) :
    runInvocation paths files env call repertoire =
      if env.logsErrors then
        ⟨e.exitCode, "", (logSetting env call).deliver
          (foretold repertoire events e ++ [failureEvent e]), ""⟩
      else ⟨e.exitCode, "", (logSetting env call).deliver (foretold repertoire events e),
        complaintOf e⟩ := by
  simp only [runInvocation, outcome, foretold]

theorem code_of_error
    (outcome : perform repertoire paths files (call.json || env.wantsJson) call =
      (events, .error e)) :
    (runInvocation paths files env call repertoire).code = e.exitCode := by
  rw [runInvocation_error outcome]
  split <;> rfl

theorem exists_error (failed : (runInvocation paths files env call repertoire).code ≠ 0) :
    ∃ events e, perform repertoire paths files (call.json || env.wantsJson) call =
      (events, .error e) := by
  rcases outcome : perform repertoire paths files (call.json || env.wantsJson) call with
    ⟨events, e | output⟩
  · exact ⟨events, e, rfl⟩
  · exact absurd (by simp [runInvocation, outcome]) failed

/-! ## What is told -/

/-- What a reader finds in a log for an event: the message in a JSON log, and else the line. -/
def shownText (form : Log.Form) (keepsControls : Bool) (event : Log.Event) : String :=
  match form with
  | .json => event.message
  | .plain => event.written .plain keepsControls

/-- All texts that a report delivers: those of its log, and what it says outside the log. -/
def Report.texts (report : Report) (form : Log.Form) (keepsControls : Bool) : List String :=
  report.events.map (shownText form keepsControls) ++
    if report.complaint = "" then [] else [report.complaint]

/-- The text by which an error is to be told. -/
def tellingOf (form : Log.Form) (e : RuleError) : String :=
  match form with
  | .json => (failureEvent e).message
  | .plain => complaintOf e

/-- An error is told once and in the form of the log: among all texts that are delivered one alone
holds its message. In a JSON log that is its line, with nothing said beside the log, and else a
complaint that comes after the log. -/
def Report.Tells (report : Report) (form : Log.Form) (keepsControls opens : Bool)
    (e : RuleError) : Prop :=
  let written := report.written form keepsControls opens
  (report.texts form keepsControls).filter (Holds · e.message) = [tellingOf form e] ∧
  match form with
  | .json =>
    (lines (written.logFile ++ written.standardError)).count (failureEvent e).line = 1 ∧
      report.complaint = ""
  | .plain => written = ⟨"", Log.written .plain keepsControls report.events ++ complaintOf e⟩

theorem written_text (report : Report) (form : Log.Form) (keepsControls opens : Bool) :
    (report.written form keepsControls opens).logFile ++
        (report.written form keepsControls opens).standardError =
      Log.written form keepsControls report.events ++ report.complaint := by
  unfold Report.written
  cases Log.sink form opens <;> simp

theorem complaintOf_ne_empty (e : RuleError) : complaintOf e ≠ "" := by
  simp [complaintOf, programName]

theorem holds_failureEvent (e : RuleError) : Holds (failureEvent e).message e.message :=
  (Text.holds_self e.message).after _

theorem holds_complaintOf (e : RuleError) : Holds (complaintOf e) e.message :=
  ((Text.holds_self e.message).after _).before _

theorem deliver_failure (setting : Log.Setting) (events : List Log.Event) (e : RuleError) :
    setting.deliver (events ++ [failureEvent e]) =
      setting.deliver events ++ if setting.threshold = none then [] else [failureEvent e] := by
  rw [setting.deliver_append, setting.deliver_error rfl]

theorem count_failure (setting : Log.Setting) (keepsControls : Bool)
    (ungrave : ∀ event ∈ events, event.level ≠ .error) (e : RuleError) :
    (lines (Log.written .json keepsControls
        (setting.deliver (events ++ [failureEvent e])))).count (failureEvent e).line =
      if setting.threshold = none then 0 else 1 := by
  have none_before : (failureEvent e).line ∉ (setting.deliver events).map Log.Event.line := by
    intro member
    obtain ⟨event, delivered, same⟩ := List.mem_map.mp member
    exact ungrave event (setting.mem_deliver_iff.mp delivered).1 (Log.level_eq_of_line same)
  have filled : (failureEvent e).line ∉ [[]] := by
    simpa using Log.line_ne_nil (failureEvent e)
  rw [Log.lines_written, deliver_failure, List.map_append, List.count_append, List.count_append,
    List.count_eq_zero.mpr none_before, List.count_eq_zero.mpr filled]
  split <;> simp

private theorem filter_eq_last_iff {texts : List String} {last message : String}
    (held : Holds last message) :
    (texts ++ [last]).filter (Holds · message) = [last] ↔
      ∀ text ∈ texts, ¬ Holds text message := by
  simp [List.filter_append, held, List.filter_eq_nil_iff]

/-- The error of a failing run is told exactly when the environment sends errors to the log where
the log has the JSON form and nowhere else, such a log is not shut, and no text before holds the
message. -/
theorem tells_of_error (keepsControls opens : Bool)
    (outcome : perform repertoire paths files (call.json || env.wantsJson) call =
      (events, .error e)) :
    (runInvocation paths files env call repertoire).Tells (logSetting env call).form keepsControls
        opens e ↔
      ((logSetting env call).form = .json ↔ env.logsErrors = true) ∧
        ((logSetting env call).form = .json → (logSetting env call).threshold ≠ none) ∧
        ∀ event ∈ (logSetting env call).deliver (foretold repertoire events e),
          ¬ Holds (shownText (logSetting env call).form keepsControls event) e.message := by
  have some_text := complaintOf_ne_empty e
  rw [runInvocation_error outcome]
  cases form : (logSetting env call).form <;> cases logged : env.logsErrors
  case plain.false =>
    simp only [Report.Tells, Report.texts, tellingOf, Bool.false_eq_true, if_false, some_text,
      filter_eq_last_iff (holds_complaintOf e)]
    simp [Report.written, Log.sink]
  case plain.true =>
    refine iff_of_false (fun told => some_text ?_) (by simp)
    have outside := congrArg Written.standardError told.2
    exact ((String.append_right_inj _).mp outside).symm
  case json.false => exact iff_of_false (fun told => some_text told.2.2) (by simp)
  case json.true =>
    have count := count_failure (logSetting env call) keepsControls (ungrave_of_error outcome) e
    simp only [Report.Tells, Report.texts, tellingOf, written_text, if_true, String.append_empty,
      count]
    by_cases shut : (logSetting env call).threshold = none
    · simp [shut]
    · have told : shownText .json keepsControls (failureEvent e) = (failureEvent e).message := rfl
      rw [deliver_failure, if_neg shut, if_neg shut, List.map_append, List.append_nil,
        List.map_singleton, told, filter_eq_last_iff (holds_failureEvent e)]
      simp [shut]

theorem shut_iff : (logSetting env call).form = .json ∧ (logSetting env call).threshold = none ↔
    (call.logLevel <|> env.logLevel) = some "json:off" := by
  rw [logSetting, Log.Setting.shut_ofText_iff]
  cases call.logLevel <|> env.logLevel <;> simp [Log.Setting.standard]

/-- Without notes and without a warning about the map nothing comes before the error. -/
theorem deliver_foretold (quiet : ∀ t, (logSetting env call).threshold = some t →
    t.admits .debug = false) (usable : mapFault paths files call = none)
    (outcome : perform repertoire paths files json call = (events, .error e)) :
    (logSetting env call).deliver (foretold repertoire events e) = [] := by
  refine List.eq_nil_iff_forall_not_mem.mpr fun event delivered => ?_
  obtain ⟨member, t, threshold, admitted⟩ := (logSetting env call).mem_deliver_iff.mp delivered
  have shut := quiet t threshold
  rcases preliminary_foretold outcome event member with (level | level) | ⟨fault, faulty, -⟩
  · rw [level, shut] at admitted
    cases admitted
  · rw [level] at admitted
    cases t <;> simp [Log.Level.admits, Log.Level.rank] at admitted shut
  · rw [usable] at faulty
    cases faulty

/-- A run that fails has an error, whose code it ends with. The error is told once and in the form
of the log exactly under three conditions: the log has the JSON form if and only if the environment,
which knows nothing of the command line, sends errors to it; the level does not shut a JSON log; and
no text that is delivered before holds the message. There is no such text where the log lets no
notes through and the map of device groups can be used. -/
theorem tells_iff (repertoire : Repertoire) (paths : Paths) (files : Files) (env : Environment)
    (call : Invocation) (keepsControls opens : Bool)
    (failed : (runInvocation paths files env call repertoire).code ≠ 0) :
    ∃ events e, perform repertoire paths files (call.json || env.wantsJson) call =
        (events, .error e) ∧
      (runInvocation paths files env call repertoire).code = e.exitCode ∧
      ((runInvocation paths files env call repertoire).Tells (logSetting env call).form
          keepsControls opens e ↔
        ((logSetting env call).form = .json ↔ env.logsErrors = true) ∧
          (call.logLevel <|> env.logLevel) ≠ some "json:off" ∧
          ∀ event ∈ (logSetting env call).deliver (foretold repertoire events e),
            ¬ Holds (shownText (logSetting env call).form keepsControls event) e.message) ∧
      ((∀ t, (logSetting env call).threshold = some t → t.admits .debug = false) →
        mapFault paths files call = none →
        (logSetting env call).deliver (foretold repertoire events e) = []) := by
  obtain ⟨events, e, outcome⟩ := exists_error failed
  refine ⟨events, e, outcome, code_of_error outcome, ?_, fun quiet usable =>
    deliver_foretold quiet usable outcome⟩
  simp only [tells_of_error keepsControls opens outcome, ne_eq, ← shut_iff, not_and]

def Files.none : Files := ⟨.error .missing, .error .missing, .error .missing⟩

def Environment.ofLevel (level : String) : Environment := ⟨.none, some level, .none, .none⟩

private def bareMark (level : Option String) : Invocation :=
  ⟨level, none, false, false, false, none, .parse "MARK" ["--set-mark"]⟩

private theorem perform_bareMark (json : Bool) (level : Option String) :
    perform .common .standard .none json (bareMark level) =
      ([Journal.mapMissing "/etc/iproute2/group",
        Journal.loaded ⟨"MARK", "MARK", .target, 2, .mark⟩],
        .error (.missingArgument "MARK" "set-mark")) := by
  with_unfolding_all rfl

theorem tells_iff_debug : ∃ call e,
    request ["--log-level", "json:debug", "parse", "MARK", "--set-mark"] = .ok call ∧
    (runInvocation .standard .none (.ofLevel "json") call).code ≠ 0 ∧
    (runInvocation .standard .none (.ofLevel "json") call).events.length = 4 ∧
    logSetting (.ofLevel "json") call = ⟨.json, "debug"⟩ ∧
    (runInvocation .standard .none (.ofLevel "json") call).Tells .json false true e := by
  have outcome := perform_bareMark
    ((bareMark (some "json:debug")).json || (Environment.ofLevel "json").wantsJson)
    (some "json:debug")
  have failed : (runInvocation .standard .none (.ofLevel "json")
      (bareMark (some "json:debug"))).code ≠ 0 := by
    rw [code_of_error outcome]
    exact RuleError.exitCode_ne_zero _
  obtain ⟨events, e, again, -, told, -⟩ := tells_iff .common .standard .none (.ofLevel "json")
    (bareMark (some "json:debug")) false true failed
  obtain ⟨rfl, same⟩ := Prod.mk.inj (outcome.symm.trans again)
  obtain rfl := Except.error.inj same
  have setting : logSetting (.ofLevel "json") (bareMark (some "json:debug")) =
      ⟨.json, "debug"⟩ := by
    decide
  rw [setting] at told
  refine ⟨bareMark (some "json:debug"), _, by with_unfolding_all rfl, failed, ?_, setting,
    told.mpr ⟨by decide, by decide, ?_⟩⟩
  · rw [runInvocation_error outcome]
    decide +kernel
  · decide +kernel

/-- A run that fails and delivers nothing. -/
theorem untold_off : ∃ call e,
    request ["parse", "MARK", "--set-mark"] = .ok call ∧
    (perform .common .standard .none (call.json || (Environment.ofLevel "json:off").wantsJson)
      call).2 = .error e ∧
    runInvocation .standard .none (.ofLevel "json:off") call = ⟨2, "", [], ""⟩ ∧
    ∀ keepsControls opens, ¬ (runInvocation .standard .none (.ofLevel "json:off") call).Tells
      (logSetting (.ofLevel "json:off") call).form keepsControls opens e := by
  have outcome := perform_bareMark
    ((bareMark none).json || (Environment.ofLevel "json:off").wantsJson) none
  have setting : logSetting (.ofLevel "json:off") (bareMark none) = ⟨.json, "off"⟩ := by decide
  refine ⟨bareMark none, _, by with_unfolding_all rfl, by rw [outcome], ?_,
    fun keepsControls opens told => ?_⟩
  · rw [runInvocation_error outcome, setting]
    rfl
  · have delivered := (tells_of_error keepsControls opens outcome).mp told
    rw [setting] at delivered
    exact delivered.2.1 rfl (by simp)

/-- A failing run delivers nothing at all exactly when the environment sends errors to a log that
lets nothing through. -/
theorem silent_iff (form : Log.Form) (keepsControls : Bool)
    (failed : (runInvocation paths files env call repertoire).code ≠ 0) :
    (runInvocation paths files env call repertoire).texts form keepsControls = [] ↔
      env.logsErrors = true ∧ (logSetting env call).threshold = none := by
  obtain ⟨events, e, outcome⟩ := exists_error failed
  rw [runInvocation_error outcome]
  cases env.logsErrors with
  | false => simp [Report.texts, complaintOf_ne_empty]
  | true =>
    by_cases shut : (logSetting env call).threshold = none
    · simp [Report.texts, Log.Setting.deliver, shut]
    · simp [Report.texts, deliver_failure, shut]

/-! ## What is told again -/

theorem holds_shownText {form : Log.Form} {keepsControls : Bool} {event : Log.Event}
    {message : String} (whole : form = .json ∨ keepsControls = true)
    (held : Holds event.message message) :
    Holds (shownText form keepsControls event) message := by
  cases form with
  | json => exact held
  | plain =>
    obtain rfl : keepsControls = true := by simpa using whole
    exact (held.after _).before "\n"

/-- Where the log lets notes through, an error that is noted by its wording is told more than once:
the note holds all of its message, unless quotes must escape a part of it. -/
theorem retold_of_noted {form : Log.Form} {keepsControls : Bool} {t : Log.Level}
    (whole : form = .json ∨ keepsControls = true)
    (open_log : (logSetting env call).threshold = some t) (noted : t.admits .debug = true)
    (worded : e.isWorded = true) (verbatim : Verbatim repertoire e.message)
    (outcome : perform repertoire paths files (call.json || env.wantsJson) call =
      (events, .error e)) :
    2 ≤ ((runInvocation paths files env call repertoire).texts form keepsControls).countP
      (Holds · e.message) := by
  have note_held : Holds (shownText form keepsControls (failureNote repertoire e)) e.message :=
    holds_shownText whole ((RuleError.holds_inspect worded verbatim).after _)
  have event_held : Holds (shownText form keepsControls (failureEvent e)) e.message :=
    holds_shownText whole (holds_failureEvent e)
  have note : (logSetting env call).deliver [failureNote repertoire e] =
      [failureNote repertoire e] := by
    simp [Log.Setting.deliver, open_log, failureNote, noted]
  have before : (logSetting env call).deliver (foretold repertoire events e) =
      (logSetting env call).deliver events ++ [failureNote repertoire e] := by
    rw [foretold, Log.Setting.deliver_append, note]
  rw [runInvocation_error outcome]
  cases env.logsErrors with
  | false =>
    simp [Report.texts, before, List.countP_append, note_held, complaintOf_ne_empty,
      holds_complaintOf]
  | true =>
    simp [Report.texts, deliver_failure, before, open_log, List.countP_append, note_held,
      event_held]

example : let call : Invocation :=
      ⟨some "json:debug", none, false, false, false, some 0, .statement "socket" ""⟩
    (runInvocation .standard .none (.ofLevel "json") call).code = 1 ∧
      ((runInvocation .standard .none (.ofLevel "json") call).texts .json false).countP
        (Holds · "socket revision 0 has no nftables equivalent") = 2 := by
  decide +kernel

end Command

end FilterRecord
