/- Mask/Word
   digest: A value and a mask, and what the kernel makes of a 32-bit field with them. -/

set_option autoImplicit false
set_option relaxedAutoImplicit false

namespace FilterRecord

/-- A value to toggle and a mask of the bits to clear first. -/
structure MaskedWord where
  value : UInt32
  mask : UInt32
deriving DecidableEq, Repr

namespace MaskedWord

def fullMask : UInt32 := 0xffffffff

def zero : MaskedWord := ⟨0, 0⟩

/-- The field after the masked bits are cleared and the value is toggled. -/
def apply (w : MaskedWord) (old : UInt32) : UInt32 :=
  (old &&& ~~~w.mask) ^^^ w.value

def isWithin (w : MaskedWord) : Bool :=
  w.value &&& ~~~w.mask == 0

end MaskedWord

end FilterRecord
