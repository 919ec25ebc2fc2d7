/- Proofs/Registry
   digest: What is found under a name is registered, and is found again at its own revision. -/

import Mathlib.Tactic.Common
import FilterRecord.Registry

set_option autoImplicit false
set_option relaxedAutoImplicit false

namespace FilterRecord.Registry

theorem lookup_ok {name : String} {revision : Option UInt8} {r : Registration}
    (found : lookup name revision = .ok r) :
    r ∈ all ∧ r.name = name ∧ (revision <|> latest? name) = some r.revision := by
  unfold lookup at found
  dsimp only at found
  split at found
  · rename_i row search
    cases found
    split at search
    · exact absurd search (by simp)
    · rename_i wanted chosen
      have test := List.find?_some search
      simp only [Bool.and_eq_true, beq_iff_eq] at test
      refine ⟨List.mem_of_find?_eq_some search, test.1, ?_⟩
      rw [chosen, test.2]
  · exact absurd found (by simp)

theorem lookup_of_mem : ∀ r ∈ all, lookup r.name (some r.revision) = .ok r := by
  decide

theorem lookup_again {name : String} {revision : Option UInt8} {r : Registration}
    (found : lookup name revision = .ok r) : lookup name (some r.revision) = .ok r := by
  obtain ⟨member, named, -⟩ := lookup_ok found
  rw [← named]
  exact lookup_of_mem r member

/-- A name that only one family is registered under gives an extension of this family. -/
theorem create_of_lookup {name : String} {revision : Option UInt8} {r : Registration}
    {family : Extension.Family} (only : ∀ r ∈ all, r.name = name → r.family = family)
    (found : lookup name revision = .ok r) : r.create = family.create r.revision := by
  obtain ⟨member, named, -⟩ := lookup_ok found
  rw [Registration.create, only r member named]

def Registered (name : String) (revision : Option UInt8) : Prop :=
  ∃ r ∈ all, r.name = name ∧ ∀ wanted, revision = some wanted → r.revision = wanted

theorem registered_of_lookup {name : String} {revision : Option UInt8} {r : Registration}
    (found : lookup name revision = .ok r) : Registered name revision := by
  obtain ⟨member, named, chosen⟩ := lookup_ok found
  refine ⟨r, member, named, ?_⟩
  rintro wanted rfl
  exact (Option.some.inj chosen).symm

theorem latest?_ne_none {r : Registration} (member : r ∈ all) : latest? r.name ≠ none := by
  rw [latest?, ne_eq, List.max?_eq_none_iff, List.map_eq_nil_iff]
  refine List.ne_nil_of_mem (a := r) (List.mem_filter.mpr ⟨member, ?_⟩)
  simp

theorem mem_of_latest? {name : String} {latest : UInt8} (found : latest? name = some latest) :
    ∃ r ∈ all, r.name = name ∧ r.revision = latest := by
  have either : Std.MaxEqOr UInt8 := ⟨fun a b => by
    rw [UInt8.max_def]
    split <;> simp⟩
  obtain ⟨r, member, revision⟩ := List.mem_map.mp (List.max?_mem found)
  obtain ⟨member, named⟩ := List.mem_filter.mp member
  exact ⟨r, member, by simpa using named, revision⟩

theorem lookup_error {name : String} {revision : Option UInt8} {e : RuleError}
    (refused : lookup name revision = .error e) :
    e = .unknownExtension name revision ∧ ¬ Registered name revision := by
  unfold lookup at refused
  dsimp only at refused
  split at refused
  · cases refused
  · rename_i missed
    cases refused
    refine ⟨rfl, ?_⟩
    rintro ⟨r, member, named, fits⟩
    have reached : ∃ known ∈ all, known.name = name ∧
        (revision <|> latest? name) = some known.revision := by
      cases revision with
      | some wanted => exact ⟨r, member, named, congrArg some (fits wanted rfl).symm⟩
      | none =>
        obtain ⟨latest, found⟩ := Option.ne_none_iff_exists'.mp (latest?_ne_none member)
        rw [named] at found
        obtain ⟨known, listed, same, revision⟩ := mem_of_latest? found
        exact ⟨known, listed, same, by rw [revision]; exact found⟩
    obtain ⟨known, listed, same, chosen⟩ := reached
    rw [chosen] at missed
    exact List.find?_eq_none.mp missed known listed (by simp [same])

theorem revision_create : ∀ r ∈ all, r.create.revision = r.revision := by
  decide

end FilterRecord.Registry
