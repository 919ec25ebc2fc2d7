/- Options/Shown
   digest: The words of an option in the text of a rule. -/

set_option autoImplicit false
set_option relaxedAutoImplicit false

namespace FilterRecord.Options

/-- The words of an option that shows, after an exclamation mark where it is inverted. -/
def shown (shows inverted : Bool) (words : List String) : List String :=
  if shows then (if inverted then ["!"] else []) ++ words else []

end FilterRecord.Options
