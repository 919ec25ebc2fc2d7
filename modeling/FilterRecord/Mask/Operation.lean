/- Mask/Operation
   digest: The operations a rule asks of a 32-bit field, and the masked word that stores each. -/

import FilterRecord.Mask.Word

set_option autoImplicit false
set_option relaxedAutoImplicit false

namespace FilterRecord

/-- An operation on a 32-bit field. -/
inductive Operation
  /-- Replace the field. -/
  | set (value : UInt32)
  /-- Keep only these bits. -/
  | and (bits : UInt32)
  /-- Turn these bits on. -/
  | or (bits : UInt32)
  /-- Toggle these bits. -/
  | xor (bits : UInt32)
  /-- Clear the mask and the value, then turn the value on. -/
  | setMasked (value mask : UInt32)
  /-- Clear the mask, then toggle the value. -/
  | setXor (value mask : UInt32)
deriving DecidableEq, Repr

namespace Operation

inductive Kind
  | set | and | or | xor | setMasked | setXor
deriving DecidableEq, Repr

def kind : Operation → Kind
  | set _ => .set
  | and _ => .and
  | or _ => .or
  | xor _ => .xor
  | setMasked _ _ => .setMasked
  | setXor _ _ => .setXor

/-- A value with a mask replaces the field when the mask is full. -/
def ofValueMask (value mask : UInt32) : Operation :=
  if mask = MaskedWord.fullMask then set value else setMasked value mask

/-- What an operation makes of a field. -/
def effect (old : UInt32) : Operation → UInt32
  | set value => value
  | and bits => old &&& bits
  | or bits => old ||| bits
  | xor bits => old ^^^ bits
  | setMasked value mask => (old &&& ~~~(mask ||| value)) ||| value
  | setXor value mask => (old &&& ~~~mask) ^^^ value

/-- The masked word of an operation. A masked set widens its mask by its value. -/
def encode : Operation → MaskedWord
  | set value => ⟨value, MaskedWord.fullMask⟩
  | and bits => ⟨0, ~~~bits⟩
  | or bits => ⟨bits, bits⟩
  | xor bits => ⟨bits, 0⟩
  | setMasked value mask => ⟨value, mask ||| value⟩
  | setXor value mask => ⟨value, mask⟩

end Operation

end FilterRecord
