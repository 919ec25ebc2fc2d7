/- Match/Credential
   digest: Ranges of user or group numbers, by number or by name. -/

import FilterRecord.Names.Accounts

set_option autoImplicit false
set_option relaxedAutoImplicit false

namespace FilterRecord

open Text

/-- A range of user or group numbers, both ends included. -/
structure CredentialRange where
  first : UInt32
  last : UInt32
deriving DecidableEq, Repr

namespace CredentialRange

/-- The highest number of an account; the one above it is reserved. -/
def highest : Nat := 4294967294

/-- The numbers from a first to a last one, in order and none reserved. -/
def between? (first last : Nat) : Option CredentialRange :=
  if first ≤ last && last ≤ highest then some ⟨UInt32.ofNat first, UInt32.ofNat last⟩ else none

def read? (s : String) : Option CredentialRange :=
  match Numeral.read? s.toList with
  | none => none
  | some (first, []) => between? first first
  | some (first, c :: tail) =>
    if c = '-' || c = ':' then
      match Numeral.read? tail with
      | some (last, []) => between? first last
      | _ => none
    else none

/-- The number of an account name, or a range of numbers. -/
def ofArgument? (accounts : AccountTable) (s : String) : Option CredentialRange :=
  match accounts.idOf? s with
  | some id => some ⟨id, id⟩
  | none => read? s

/-- A range as numbers, a single number once. -/
def numbers (r : CredentialRange) : String :=
  if r.first = r.last then Numeral.decimal r.first.toNat
  else Numeral.decimal r.first.toNat ++ "-" ++ Numeral.decimal r.last.toNat

/-- A range as text: the account name of a single number where there is one. -/
def display (accounts : AccountTable) (r : CredentialRange) : String :=
  if r.first = r.last then (accounts.nameOf? r.first).getD r.numbers else r.numbers

end CredentialRange

end FilterRecord
