/- Proofs/Names/Accounts
   digest: Each name and number of an account leads to the first account that has it. -/

import FilterRecord.Names.Accounts

set_option autoImplicit false
set_option relaxedAutoImplicit false

namespace FilterRecord.AccountTable

variable {t : AccountTable} {id : UInt32} {name : String}

theorem mem_of_idOf? (found : t.idOf? name = some id) : (id, name) ∈ t := by
  obtain ⟨account, search, rfl⟩ := Option.map_eq_some_iff.mp found
  have named : account.2 = name := by simpa using List.find?_some search
  have member := List.mem_of_find?_eq_some search
  rwa [← named]

theorem mem_of_nameOf? (found : t.nameOf? id = some name) : (id, name) ∈ t := by
  obtain ⟨account, search, rfl⟩ := Option.map_eq_some_iff.mp found
  have numbered : account.1 = id := by simpa using List.find?_some search
  have member := List.mem_of_find?_eq_some search
  rwa [← numbered]

theorem idOf?_ne_none (member : (id, name) ∈ t) : t.idOf? name ≠ none := by
  intro missing
  have absent := List.find?_eq_none.mp (Option.map_eq_none_iff.mp missing) _ member
  simp at absent

theorem nameOf?_ne_none (member : (id, name) ∈ t) : t.nameOf? id ≠ none := by
  intro missing
  have absent := List.find?_eq_none.mp (Option.map_eq_none_iff.mp missing) _ member
  simp at absent

end FilterRecord.AccountTable
