/- Text/Utf8
   digest: UTF-8 over lists of bytes; an ill-formed piece reads as one replacement character. -/

set_option autoImplicit false
set_option relaxedAutoImplicit false

namespace FilterRecord.Text.Utf8

def encode (cs : List Char) : List UInt8 :=
  cs.flatMap String.utf8EncodeChar

/-- What a leading byte promises: how many tail bytes follow it, the range of the first of them,
and the bits that the leading byte itself contributes. -/
structure Lead where
  tails : Nat
  low : UInt8
  high : UInt8
  bits : Nat

/-- The leading bytes, with the ranges that exclude overlong forms, surrogates and values above
the last scalar. -/
def lead? (b : UInt8) : Option Lead :=
  if b ≤ 0x7f then some ⟨0, 0x80, 0xbf, b.toNat⟩
  else if 0xc2 ≤ b && b ≤ 0xdf then some ⟨1, 0x80, 0xbf, b.toNat - 0xc0⟩
  else if b == 0xe0 then some ⟨2, 0xa0, 0xbf, 0⟩
  else if b == 0xed then some ⟨2, 0x80, 0x9f, 0xd⟩
  else if 0xe1 ≤ b && b ≤ 0xef then some ⟨2, 0x80, 0xbf, b.toNat - 0xe0⟩
  else if b == 0xf0 then some ⟨3, 0x90, 0xbf, 0⟩
  else if 0xf1 ≤ b && b ≤ 0xf3 then some ⟨3, 0x80, 0xbf, b.toNat - 0xf0⟩
  else if b == 0xf4 then some ⟨3, 0x80, 0x8f, 4⟩
  else none

/-- The longest run of at most `n` tail bytes; only the first has a range of its own. -/
def tailRun (low high : UInt8) : Nat → List UInt8 → List UInt8
  | n + 1, b :: bs => if low ≤ b && b ≤ high then b :: tailRun 0x80 0xbf n bs else []
  | _, _ => []

/-- Each tail byte contributes its low six bits. -/
def scalar (bits : Nat) (run : List UInt8) : Nat :=
  run.foldl (fun n b => n * 64 + b.toNat % 64) bits

/-- The first piece of a non-empty text: its character, or none when it is ill-formed, and how
many bytes after the first it takes. -/
def piece (b : UInt8) (bs : List UInt8) : Option Char × Nat :=
  match lead? b with
  | none => (none, 0)
  | some l =>
    let run := tailRun l.low l.high l.tails bs
    (if run.length = l.tails then some (Char.ofNat (scalar l.bits run)) else none, run.length)

/-- The pieces of a byte text in order. An ill-formed piece is as long as it could still have
become a character. -/
def pieces : List UInt8 → List (Option Char)
  | [] => []
  | b :: bs =>
    let p := piece b bs
    p.1 :: pieces (bs.drop p.2)
  termination_by bs => bs.length
  decreasing_by
    simp only [List.length_drop, List.length_cons]
    omega

/-- The text of the bytes, with one replacement character for each ill-formed piece. -/
def decodeLossy (bs : List UInt8) : List Char :=
  (pieces bs).map (·.getD '\ufffd')

/-- The text of the bytes, if they are well-formed throughout. -/
def decode? (bs : List UInt8) : Option (List Char) :=
  (pieces bs).mapM id

end FilterRecord.Text.Utf8
