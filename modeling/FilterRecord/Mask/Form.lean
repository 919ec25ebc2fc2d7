/- Mask/Form
   digest: The simplest operation that shows a masked word, and its words in a rule. -/

import FilterRecord.Mask.Operation
import FilterRecord.Text.Blank
import FilterRecord.Text.Numeral

set_option autoImplicit false
set_option relaxedAutoImplicit false

namespace FilterRecord

open Text

/-- The form in which a masked word is shown. -/
inductive Form
  | and (bits : UInt32)
  | or (bits : UInt32)
  | xor (bits : UInt32)
  | set (value : UInt32)
  | setMasked (value mask : UInt32)
deriving DecidableEq, Repr

structure OptionNames where
  set : String
  and : String
  or : String
  xor : String
  setMasked : String
deriving DecidableEq, Repr

namespace Form

def names : OptionNames := ⟨"set", "and", "or", "xor", "set-masked"⟩

def option (names : OptionNames) : Form → String
  | and _ => names.and
  | or _ => names.or
  | xor _ => names.xor
  | set _ => names.set
  | setMasked _ _ => names.setMasked

def operand : Form → UInt32
  | and bits | or bits | xor bits => bits
  | set value => value
  | setMasked value _ => value

/-- The operation that a form stands for. The masked form is taken as it is written, so that its
mask is not widened. -/
def operation : Form → Operation
  | and bits => .and bits
  | or bits => .or bits
  | xor bits => .xor bits
  | set value => .set value
  | setMasked value mask => .setXor value mask

/-- The operand as text; only the masked form shows a mask. -/
def argument : Form → String
  | setMasked value mask => Numeral.hex value.toNat ++ "/" ++ Numeral.hex mask.toNat
  | form => Numeral.hex form.operand.toNat

end Form

namespace MaskedWord

/-- The first form that fits a masked word: a value of zero clears bits, a value equal to the mask
turns bits on, an empty mask toggles, a full mask replaces. -/
def form (w : MaskedWord) : Form :=
  if w.value = 0 then .and (~~~w.mask)
  else if w.value = w.mask then .or w.value
  else if w.mask = 0 then .xor w.value
  else if w.mask = fullMask then .set w.value
  else .setMasked w.value w.mask

/-- The words of a masked word in a rule; `dash` stands before the option's name. -/
def ruleWords (names : OptionNames) (dash : String) (w : MaskedWord) : List String :=
  [dash ++ w.form.option names, w.form.argument]

end MaskedWord

end FilterRecord
