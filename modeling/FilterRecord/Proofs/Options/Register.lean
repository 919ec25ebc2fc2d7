/- Proofs/Options/Register
   digest: An option may follow exactly when its own bit and the bits it excludes are clear. -/

import FilterRecord.Options.Register
import FilterRecord.Proofs.Mask.Bits

set_option autoImplicit false
set_option relaxedAutoImplicit false

namespace FilterRecord.Options

namespace Register

def Misses (r : Register) (mask : UInt32) : Prop := r.bits &&& mask = 0

instance (r : Register) (mask : UInt32) : Decidable (r.Misses mask) :=
  inferInstanceAs (Decidable (_ = _))

theorem empty_misses (mask : UInt32) : empty.Misses mask := by
  simp [Misses, empty]

theorem misses_or {r : Register} {a b : UInt32} :
    r.Misses (a ||| b) ↔ r.Misses a ∧ r.Misses b := and_or_eq_zero_iff

theorem misses_of_within {r : Register} {few many : UInt32} (within : many ||| few = many)
    (h : r.Misses many) : r.Misses few := by
  rw [← within] at h
  exact (misses_or.mp h).2

theorem add_misses {r : Register} {e : Entry} {mask : UInt32} :
    (r.add e).Misses mask ↔ r.Misses mask ∧ e.bit &&& mask = 0 := or_and_eq_zero_iff

def after (r : Register) (given : Bool) (e : Entry) : Register :=
  if given then r.add e else r

theorem after_misses {r : Register} {given : Bool} {e : Entry} {mask : UInt32} :
    (r.after given e).Misses mask ↔ r.Misses mask ∧ (given = true → e.bit &&& mask = 0) := by
  cases given <;> simp [after, add_misses]

theorem check_eq_ok_iff {r : Register} {extension : String} {table : List Entry} {e : Entry} :
    r.check extension table e = .ok () ↔ r.Misses (e.bit ||| e.excluded) := by
  rw [misses_or]
  unfold check intersects Misses
  by_cases seen : r.bits &&& e.bit = 0
  · have clash : r.bits &&& e.excluded &&& ~~~e.bit = r.bits &&& e.excluded := by
      rw [UInt32.and_assoc, UInt32.and_comm e.excluded, ← UInt32.and_assoc,
        and_not_of_disjoint seen]
    by_cases excluded : r.bits &&& e.excluded = 0
    · simp [seen, excluded]
    · simp [seen, clash, excluded]
  · simp [seen]

theorem add_right_comm (r : Register) (e other : Entry) :
    (r.add e).add other = (r.add other).add e := by
  simp only [add, UInt32.or_assoc, UInt32.or_comm e.bit]

end Register

def Apart (e other : Entry) : Prop := e.bit &&& (other.bit ||| other.excluded) = 0

instance (e other : Entry) : Decidable (Apart e other) :=
  inferInstanceAs (Decidable (_ = _))

theorem id_ne_of_apart {e other : Entry} (some_bit : e.bit ≠ 0) (apart : Apart e other) :
    e.id ≠ other.id := by
  intro same
  have own : e.bit = other.bit := congrArg bit same
  rw [Apart, ← own, and_or_eq_zero_iff, UInt32.and_self] at apart
  exact some_bit apart.1

end FilterRecord.Options
