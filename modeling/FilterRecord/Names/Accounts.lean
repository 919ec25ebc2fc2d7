/- Names/Accounts
   digest: User and group names with their numbers, from account files. -/

import FilterRecord.Error
import FilterRecord.Names.HostFile
import FilterRecord.Text.Blank
import FilterRecord.Text.Numeral

set_option autoImplicit false
set_option relaxedAutoImplicit false

namespace FilterRecord

open Text

/-- The accounts of one file, in its order. -/
abbrev AccountTable := List (UInt32 × String)

namespace AccountTable

/-- The account of a line: its first field without blanks around it, and the number in its third
field. A comment, a line without a name and a line without such a number have none. -/
def readLine (line : List Char) : Option (UInt32 × String) :=
  if (trimStart line).head? = some '#' then none
  else match split (· == ':') line with
    | first :: _ :: third :: _ =>
      let name := trim first
      if name.isEmpty then none
      else (Numeral.word32? third).map fun id => (id, String.ofList name)
    | _ => none

def ofText (text : String) : AccountTable :=
  (lines text.toList).filterMap readLine

def idOf? (t : AccountTable) (name : String) : Option UInt32 :=
  (t.find? (·.2 == name)).map (·.1)

def nameOf? (t : AccountTable) (id : UInt32) : Option String :=
  (t.find? (·.1 == id)).map (·.2)

end AccountTable

structure Accounts where
  users : AccountTable
  groups : AccountTable
deriving DecidableEq, Repr

namespace Accounts

/-- No accounts, so that only numbers are understood. -/
def empty : Accounts := ⟨[], []⟩

def ofTexts (passwd group : String) : Accounts :=
  ⟨AccountTable.ofText passwd, AccountTable.ofText group⟩

/-- The text of an account file; a missing file has none. -/
def textOfFile (path : String) (contents : Names.Contents) : Except RuleError String :=
  match Names.textOf contents with
  | .ok text => .ok text
  | .error .missing => .ok ""
  | .error fault => .error (.resource (Names.unreadable path fault))

/-- The accounts of two files, each given by its path and contents. -/
def ofFiles (passwd group : String × Names.Contents) : Except RuleError Accounts := do
  let users ← textOfFile passwd.1 passwd.2
  let groups ← textOfFile group.1 group.2
  return ofTexts users groups

end Accounts

end FilterRecord
