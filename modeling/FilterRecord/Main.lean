/- Main
   digest: The program: its surroundings are read, one report is made and written out. -/

import FilterRecord.Command.Report

set_option autoImplicit false
set_option relaxedAutoImplicit false

namespace FilterRecord.Program

open Command

def readContents (path : String) : IO Names.Contents := do
  try
    return .ok (← IO.FS.readBinFile path).toList
  catch
    | .noFileOrDirectory .. => return .error .missing
    | .inappropriateType (some _) .. => return .error .notDirectory
    | .inappropriateType none .. => return .error .directory
    | .invalidArgument .. => return .error .longName
    | .permissionDenied .. => return .error .denied
    | e => return .error (.system (toString e))

def openLog (path : Option String) : IO (Option IO.FS.Handle) := do
  match path with
  | none => return none
  | some path =>
    try return some (← IO.FS.Handle.mk path .append)
    catch _ => return none

/-- Writes a report, its log in a form and to the file of a path if that opens, and gives its exit
code. -/
def writeReport (report : Report) (form : Log.Form) (keepsControls : Bool)
    (path : Option String) : IO UInt32 := do
  let file ← openLog (if form = .json then path else none)
  let written := report.written form keepsControls file.isSome
  if let some file := file then
    file.putStr written.logFile
  (← IO.getStderr).putStr written.standardError
  (← IO.getStdout).putStr report.output
  return UInt32.ofNat report.code

def run (tokens : List String) : IO UInt32 := do
  match request tokens with
  | .error halt => writeReport halt.report .plain true none
  | .ok call =>
    let paths := Paths.standard
    let env : Environment :=
      ⟨← IO.getEnv "XTMASK_JSON", ← IO.getEnv "XTMASK_LOG_LEVEL", ← IO.getEnv "NO_COLOR",
        ← IO.getEnv "CLICOLOR_FORCE"⟩
    let files : Files :=
      ⟨← readContents (call.deviceGroups.getD paths.deviceGroups), ← readContents paths.passwd,
        ← readContents paths.group⟩
    let report := runInvocation paths files env call
    writeReport report (logSetting env call).form env.keepsControls
      (← IO.getEnv "XTMASK_LOG_PATH")

end FilterRecord.Program

def main (tokens : List String) : IO UInt32 :=
  FilterRecord.Program.run tokens
