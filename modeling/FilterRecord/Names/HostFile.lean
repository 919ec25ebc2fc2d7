/- Names/HostFile
   digest: The outcome of reading a file of the host as text. -/

import FilterRecord.Text.Utf8

set_option autoImplicit false
set_option relaxedAutoImplicit false

namespace FilterRecord.Names

open Text

/-- Why a file of the host gives no text. -/
inductive ReadFault
  /-- There is no such file. -/
  | missing
  /-- A directory stands in its place. -/
  | directory
  /-- A part of the path before the last is no directory. -/
  | notDirectory
  /-- The path or a part of it is too long. -/
  | longName
  /-- The file may not be read. -/
  | denied
  /-- The bytes are not UTF-8. -/
  | notText
  /-- The system refuses, in its own words. -/
  | system (text : String)
deriving DecidableEq, Repr

def ReadFault.message : ReadFault → String
  | .missing => "No such file or directory (os error 2)"
  | .directory => "Is a directory (os error 21)"
  | .notDirectory => "Not a directory (os error 20)"
  | .longName => "File name too long (os error 36)"
  | .denied => "Permission denied (os error 13)"
  | .notText => "stream did not contain valid UTF-8"
  | .system text => text

/-- What the host answers when a file is read. -/
abbrev Contents := Except ReadFault (List UInt8)

def textOf : Contents → Except ReadFault String
  | .error fault => .error fault
  | .ok bytes =>
    match Utf8.decode? bytes with
    | some cs => .ok (String.ofList cs)
    | none => .error .notText

def unreadable (path : String) (fault : ReadFault) : String :=
  "Failed to read " ++ path ++ ": " ++ fault.message

end FilterRecord.Names
