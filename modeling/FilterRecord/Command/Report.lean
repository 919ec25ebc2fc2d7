/- Command/Report
   digest: What a run writes, logs and answers for a command line. -/

import FilterRecord.Command.Line
import FilterRecord.Journal

set_option autoImplicit false
set_option relaxedAutoImplicit false

namespace FilterRecord.Command

open Text
open Text.Json (Document Fields)
open Text.Quoted (Repertoire)

def programName : String := "xtmask"

def versionText : String := "xtmask 0.3.0\n"

def usageText : String :=
  ofLines
    ["Encode and decode packet-filter extension records",
      "",
      "Usage: xtmask [OPTIONS] <COMMAND>",
      "",
      "Commands:",
      "  parse  Parse extension options into a kernel record",
      "  show   Decode a hex kernel record into rule text",
      "  xlate  Translate a hex kernel record to nftables syntax",
      "  help   Show the options of one extension",
      "  list   List every registered extension revision"]

structure Paths where
  deviceGroups : String
  passwd : String
  group : String
deriving DecidableEq, Repr

def Paths.standard : Paths := ⟨"/etc/iproute2/group", "/etc/passwd", "/etc/group"⟩

/-- The settings that a run finds around it. -/
structure Environment where
  /-- The results are to be written as JSON, where this word is one of consent. -/
  json : Option String
  logLevel : Option String
  /-- Controls in the plain log are unwanted, if the word is not empty. -/
  noColor : Option String
  /-- Controls in the plain log are wanted, if the word is not empty. -/
  forceColor : Option String
deriving DecidableEq, Repr

namespace Environment

def consents (word : String) : Bool :=
  ["1", "true", "on", "yes", "t"].any (sameLetters · word)

def wantsJson (env : Environment) : Bool := env.json.any consents

/-- Errors are to go to the log, by the level that the environment sets. -/
def logsErrors (env : Environment) : Bool :=
  match env.logLevel with
  | some s => "json".toList.isPrefixOf s.toList
  | none => false

/-- The plain log keeps its controls. They are dropped unless they are wanted, and also then where
they are unwanted. -/
def keepsControls (env : Environment) : Bool :=
  env.forceColor.any (· != "") && !env.noColor.any (· != "")

end Environment

structure Files where
  deviceGroups : Names.Contents
  passwd : Names.Contents
  group : Names.Contents

/-- What a run does: the exit code, the text on the standard output, the events it logs in their
order, and what it says of an error outside the log. -/
structure Report where
  code : Nat
  output : String
  events : List Log.Event
  complaint : String
deriving DecidableEq, Repr

def optionalText : Option String → Json.Scalar
  | some s => .text s
  | none => .null

def viewFields (v : RecordView) : Fields :=
  [("extension", .text v.extension), ("revision", .number v.revision.toNat),
    ("size", .number v.size), ("hex", .text (HexBytes.encode v.record)),
    ("print", .text v.listed), ("save", .text v.saved), ("xlate", optionalText v.statement)]

def ruleFields (r : RuleView) : Fields :=
  [("extension", .text r.view.extension), ("kind", .text r.part.label),
    ("revision", .number r.view.revision.toNat), ("size", .number r.view.size),
    ("hex", .text (HexBytes.encode r.view.record)), ("print", .text r.view.listed),
    ("save", .text r.view.saved), ("rule", .text r.rule),
    ("xlate", optionalText r.view.statement)]

def registrationFields (r : Registration) : Fields :=
  [("name", .text r.name), ("real_name", .text r.realName), ("kind", .text r.part.label),
    ("revision", .number r.revision.toNat), ("size", .number r.create.size)]

def registrationLine (r : Registration) : String :=
  r.part.flag ++ " " ++ r.name ++ "." ++ Numeral.decimal r.revision.toNat ++ "  " ++
    Numeral.decimal r.create.size ++ " bytes" ++
    if r.name = r.realName then "" else " (alias of " ++ r.realName ++ ")"

def emit (json : Bool) (document : Document) (text : String) : String :=
  (if json then document.render else text) ++ "\n"

/-- The names of the host, with the events of loading them. -/
def hostNames (repertoire : Repertoire) (paths : Paths) (files : Files) (call : Invocation) :
    List Log.Event × Except RuleError Context :=
  let path := call.deviceGroups.getD paths.deviceGroups
  let (groups, _) := DeviceGroups.ofOptionalFile path files.deviceGroups
  let mapEvent := Journal.ofDeviceGroups path files.deviceGroups
  let passwd := (paths.passwd, files.passwd)
  let group := (paths.group, files.group)
  if call.resolveNames then
    (mapEvent :: Journal.ofAccounts repertoire passwd group,
      (Accounts.ofFiles passwd group).map fun accounts => ⟨groups.getD .empty, accounts⟩)
  else ([mapEvent], .ok ⟨groups.getD .empty, .empty⟩)

/-- The record that a text of hexadecimal digits writes; blanks around it do not count. -/
def readRecord (text : String) : Except RuleError Field.Bytes :=
  match HexBytes.decode (String.ofList (trim text.toList)) with
  | .ok bytes => .ok bytes
  | .error fault => .error (.hex fault)

/-- The output of an action, with the events on the way. -/
def perform (repertoire : Repertoire) (paths : Paths) (files : Files) (json : Bool)
    (call : Invocation) : List Log.Event × Except RuleError String :=
  match call.action with
  | .parse extension options =>
    let (events, host) := hostNames repertoire paths files call
    match host with
    | .error e => (events, .error e)
    | .ok host =>
      (events ++ Journal.ofParse repertoire extension call.revision options host, do
        let r ← Rule.parse extension call.revision options call.numeric host
        let v := r.view
        return emit json (.object (ruleFields r))
          (r.rule ++ "\nrecord " ++ v.extension ++ "." ++ Numeral.decimal v.revision.toNat ++
            ": " ++ HexBytes.encode v.record))
  | .describe extension text =>
    let found := Journal.ofLookup extension call.revision
    match Registry.lookup extension call.revision, readRecord text with
    | .error e, _ => (found, .error e)
    | .ok _, .error e => (found, .error e)
    | .ok r, .ok record =>
      let (events, host) := hostNames repertoire paths files call
      match host with
      | .error e => (found ++ events, .error e)
      | .ok host =>
        (found ++ events ++
          Journal.ofRecord repertoire Journal.ofView extension r.revision record, do
          let v ← Rule.describe extension r.revision record call.numeric host
          return emit json (.object (viewFields v))
            (String.ofList (trimStart v.listed.toList)))
  | .statement extension text =>
    let found := Journal.ofLookup extension call.revision
    match Registry.lookup extension call.revision, readRecord text with
    | .error e, _ => (found, .error e)
    | .ok _, .error e => (found, .error e)
    | .ok r, .ok record =>
      (found ++ Journal.ofRecord repertoire Journal.ofStatement extension r.revision record, do
        match ← Rule.statement extension r.revision record with
        | some statement => return emit json (.scalar (.text statement)) statement
        | none => throw (.noStatement extension r.revision))
  | .help extension =>
    (Journal.ofLookup extension call.revision, Rule.help extension call.revision)
  | .list =>
    ([], .ok (emit json (.list (Registry.all.map registrationFields))
      (joinWith "\n" (Registry.all.map registrationLine))))

/-- The log setting of an invocation: that of the command line, else that of the environment. -/
def logSetting (env : Environment) (call : Invocation) : Log.Setting :=
  .ofText ((call.logLevel <|> env.logLevel).getD Log.Setting.standard)

/-- A note about an error by its parts, before the error is told. -/
def failureNote (repertoire : Repertoire) (e : RuleError) : Log.Event :=
  ⟨.debug, programName, "❌ Command failed: " ++ e.inspect repertoire⟩

/-- The event of an error, where errors go to the log. -/
def failureEvent (e : RuleError) : Log.Event := ⟨.error, programName, "❌ " ++ e.message⟩

/-- What is said of an error outside the log. -/
def complaintOf (e : RuleError) : String := programName ++ ": " ++ e.message ++ "\n"

/-- The report of an invocation. An error is noted for developers; then it goes to the log where the
environment asks for the JSON form, and else straight to the standard error. -/
def runInvocation (paths : Paths) (files : Files) (env : Environment) (call : Invocation)
    (repertoire : Repertoire := .common) : Report :=
  let setting := logSetting env call
  let (events, outcome) := perform repertoire paths files (call.json || env.wantsJson) call
  match outcome with
  | .ok output => ⟨0, output, setting.deliver events, ""⟩
  | .error e =>
    let noted := events ++ [failureNote repertoire e]
    if env.logsErrors then ⟨e.exitCode, "", setting.deliver (noted ++ [failureEvent e]), ""⟩
    else ⟨e.exitCode, "", setting.deliver noted, complaintOf e⟩

structure Written where
  logFile : String
  standardError : String
deriving DecidableEq, Repr

/-- A report as it is written, with its log in a form and in a file if that opens. What it says
outside the log comes last. -/
def Report.written (report : Report) (form : Log.Form) (keepsControls opens : Bool) : Written :=
  let log := Log.written form keepsControls report.events
  match Log.sink form opens with
  | .file => ⟨log, report.complaint⟩
  | .standardError => ⟨"", log ++ report.complaint⟩

/-- What a command line asks for. The version counts alone when it comes first. -/
def request (tokens : List String) : Except Halt Invocation :=
  if tokens.head? = some "--version" then .error .version else readLine tokens

def Halt.report : Halt → Report
  | .refused => ⟨2, "", [], "error: the command line is not understood\n\n" ++ usageText⟩
  | .help => ⟨0, usageText, [], ""⟩
  | .version => ⟨0, versionText, [], ""⟩

end FilterRecord.Command
