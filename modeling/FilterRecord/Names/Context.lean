/- Names/Context
   digest: The names of the host that options may be written with. -/

import FilterRecord.Names.Accounts
import FilterRecord.Names.DeviceGroups

set_option autoImplicit false
set_option relaxedAutoImplicit false

namespace FilterRecord

/-- The names of the host that options may be written with. -/
structure Context where
  deviceGroups : DeviceGroups
  accounts : Accounts
deriving DecidableEq, Repr

def Context.empty : Context := ⟨.empty, .empty⟩

end FilterRecord
