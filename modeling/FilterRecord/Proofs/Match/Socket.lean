/- Proofs/Match/Socket
   digest: What each socket option does to a record, and what its layout keeps of it. -/

import FilterRecord.Match.Socket
import FilterRecord.Proofs.Outcome
import FilterRecord.Proofs.Record.Field

set_option autoImplicit false
set_option relaxedAutoImplicit false

namespace FilterRecord.SocketMatch

open FilterRecord.Field
open Options (Occurrence)

/-- What an accepted option makes of a record. -/
inductive Step (accounts : Accounts) (m : SocketMatch) (o : Occurrence) : SocketMatch → Prop
  | transparent : o.entry.id = Id.transparent → (o.inverted = true → ¬ m.revision < 3) →
    Step accounts m o (m.withFlag Flag.transparent o.inverted)
  | noWildcard : o.entry.id = Id.noWildcard → ¬ m.revision < 2 →
    Step accounts m o (m.withFlag Flag.noWildcard false)
  | restoreMark : o.entry.id = Id.restoreMark → ¬ m.revision < 3 →
    Step accounts m o (m.withFlag Flag.restoreMark false)
  | invert : o.entry.id = Id.invert → ¬ m.revision < 4 →
    Step accounts m o (m.withFlag Flag.invert false)
  | state {list : String} {states : UInt32} : o.entry.id = Id.state → ¬ m.revision < 4 →
    o.operand = .text list → StateTable.read? list = some states →
    Step accounts m o (withFlag { m with states := states } Flag.state o.inverted)
  | user {text : String} {users : CredentialRange} : o.entry.id = Id.user → ¬ m.revision < 4 →
    o.operand = .text text → CredentialRange.ofArgument? accounts.users text = some users →
    Step accounts m o (withFlag { m with users := users } Flag.user o.inverted)
  | group {text : String} {groups : CredentialRange} : o.entry.id = Id.group →
    ¬ m.revision < 4 → o.operand = .text text →
    CredentialRange.ofArgument? accounts.groups text = some groups →
    Step accounts m o (withFlag { m with groups := groups } Flag.group o.inverted)

variable {accounts : Accounts} {m next : SocketMatch} {o : Occurrence}

private theorem step_of_applyExtended (later : ¬ m.revision < 4)
    (ok : m.applyExtended accounts o = .ok next) : Step accounts m o next := by
  unfold applyExtended at ok
  split at ok
  · rename_i id
    cases ok
    exact .invert id later
  · rename_i id operand
    unfold applyState at ok
    split at ok
    · rename_i read
      cases ok
      exact .state id later operand read
    · exact absurd ok (by simp)
  · rename_i id operand
    unfold applyUser at ok
    split at ok
    · rename_i read
      cases ok
      exact .user id later operand read
    · exact absurd ok (by simp)
  · rename_i id operand
    unfold applyGroup at ok
    split at ok
    · rename_i read
      cases ok
      exact .group id later operand read
    · exact absurd ok (by simp)
  · exact absurd ok (by simp)

theorem step_of_apply (ok : m.apply accounts o = .ok next) : Step accounts m o next := by
  unfold apply at ok
  split at ok
  · rename_i id
    split at ok
    · exact absurd ok (by simp)
    · rename_i supported
      cases ok
      exact .transparent id fun inverted => by simpa [inverted] using supported
  · rename_i id
    split at ok
    · exact absurd ok (by simp)
    · rename_i later
      cases ok
      exact .noWildcard id later
  · rename_i id
    split at ok
    · exact absurd ok (by simp)
    · rename_i later
      cases ok
      exact .restoreMark id later
  · split at ok
    · exact absurd ok (by simp)
    · rename_i later
      exact step_of_applyExtended later ok

theorem revision_step (step : Step accounts m o next) : next.revision = m.revision := by
  cases step <;> rfl

structure Fits (m : SocketMatch) : Prop where
  bare : m.revision = 0 → m = create 0
  early : m.revision ≤ 3 → m.states = 0 ∧ m.users = ⟨0, 0⟩ ∧ m.groups = ⟨0, 0⟩

theorem fits_create (revision : UInt8) : (create revision).Fits where
  bare := by
    rintro rfl
    rfl
  early := fun _ => ⟨rfl, rfl, rfl⟩

private theorem not_le_three {revision : UInt8} (later : ¬ revision < 4) : ¬ revision ≤ 3 := by
  rw [UInt8.lt_iff_toNat_lt] at later
  rw [UInt8.le_iff_toNat_le]
  simp only [UInt8.reduceToNat] at later ⊢
  omega

theorem fits_step (fits : m.Fits) (step : Step accounts m o next) (some_option : m.revision ≠ 0) :
    next.Fits where
  bare zero := absurd (revision_step step ▸ zero) some_option
  early early := by
    rw [revision_step step] at early
    cases step with
    | transparent | noWildcard | restoreMark | invert => exact fits.early early
    | state _ later | user _ later | group _ later => exact absurd early (not_le_three later)

private theorem pack_extended (late : ¬ m.revision ≤ 3) : m.pack =
    [m.flags] ++ ([m.inverted] ++ (zeros 2 ++ (word32 m.states ++ (word32 m.users.first ++
      (word32 m.users.last ++ (word32 m.groups.first ++ word32 m.groups.last)))))) := by
  have nonzero : m.revision ≠ 0 := by
    intro zero
    exact late (by simp [zero])
  simp [pack, nonzero, late]

private theorem unpack_extended (late : ¬ m.revision ≤ 3) :
    unpack m.revision m.pack = .ok m := by
  have nonzero : m.revision ≠ 0 := by
    intro zero
    exact late (by simp [zero])
  have fixed {offset : Nat} {bytes : Bytes} (held : Holds offset bytes (word32 m.states ++
      (word32 m.users.first ++ (word32 m.users.last ++ (word32 m.groups.first ++
        word32 m.groups.last))))) : Holds (offset + 4) bytes m.pack := by
    rw [pack_extended late]
    simpa [Nat.add_assoc] using holds_after [m.flags] (holds_after [m.inverted]
      (holds_after (zeros 2) held))
  have flags : get8 0 m.pack = .ok m.flags := get8_of_holds (by
    rw [pack_extended late]
    exact holds_first _ _)
  have inverted : get8 1 m.pack = .ok m.inverted := get8_of_holds (by
    rw [pack_extended late]
    exact holds_after [m.flags] (holds_first _ _))
  have states : get32 4 m.pack = .ok m.states := get32_of_holds (fixed (holds_first _ _))
  have firstUser : get32 8 m.pack = .ok m.users.first := get32_of_holds (by
    simpa using fixed (holds_after (word32 m.states) (holds_first _ _)))
  have lastUser : get32 12 m.pack = .ok m.users.last := get32_of_holds (by
    simpa using fixed (holds_after (word32 m.states) (holds_after (word32 m.users.first)
      (holds_first _ _))))
  have firstGroup : get32 16 m.pack = .ok m.groups.first := get32_of_holds (by
    simpa using fixed (holds_after (word32 m.states) (holds_after (word32 m.users.first)
      (holds_after (word32 m.users.last) (holds_first _ _)))))
  have lastGroup : get32 20 m.pack = .ok m.groups.last := get32_of_holds (by
    simpa using fixed (holds_after (word32 m.states) (holds_after (word32 m.users.first)
      (holds_after (word32 m.users.last) (holds_after (word32 m.groups.first) (holds_all _))))))
  have length : m.pack.length = size m.revision := by
    rw [pack_extended late]
    simp [size, nonzero, late, align]
  rw [unpack, checkSize_of_length length, flags, inverted, states, firstUser, lastUser,
    firstGroup, lastGroup]
  simp [nonzero, late, bind, Except.bind, pure, Except.pure]

private theorem early_eq (fits : m.Fits) (early : m.revision ≤ 3) :
    { create m.revision with flags := m.flags, inverted := m.inverted } = m := by
  obtain ⟨states, users, groups⟩ := fits.early early
  cases m
  simp_all [create]

private theorem unpack_early (fits : m.Fits) (some_layout : m.revision ≠ 0)
    (early : m.revision ≤ 3) : unpack m.revision m.pack = .ok m := by
  have bytes : m.pack = [m.flags] ++ ([m.inverted] ++ zeros 6) := by
    simp [pack, some_layout, early]
  have flags : get8 0 m.pack = .ok m.flags := get8_of_holds (by
    rw [bytes]
    exact holds_first _ _)
  have inverted : get8 1 m.pack = .ok m.inverted := get8_of_holds (by
    rw [bytes]
    exact holds_after [m.flags] (holds_first _ _))
  have length : m.pack.length = size m.revision := by
    rw [bytes]
    simp [size, some_layout, early, align]
  rw [unpack, checkSize_of_length length, flags, inverted]
  simp [some_layout, early, early_eq fits early, bind, Except.bind, pure, Except.pure]

theorem unpack_pack (fits : m.Fits) : unpack m.revision m.pack = .ok m := by
  by_cases bare : m.revision = 0
  · rw [fits.bare bare]
    rfl
  · by_cases early : m.revision ≤ 3
    · exact unpack_early fits bare early
    · exact unpack_extended early

theorem unpack_ok {revision : UInt8} {record : Bytes} {m : SocketMatch}
    (ok : unpack revision record = .ok m) :
    m.revision = revision ∧ (m.revision = 0 → m = create 0) := by
  obtain ⟨_, -, read⟩ := bind_eq_ok_iff.mp ok
  split at read
  · rename_i zero
    cases read
    exact ⟨rfl, fun _ => by rw [zero]⟩
  · rename_i later
    obtain ⟨flags, -, read⟩ := bind_eq_ok_iff.mp read
    obtain ⟨inverted, -, read⟩ := bind_eq_ok_iff.mp read
    split at read
    · cases read
      exact ⟨rfl, fun zero => absurd zero later⟩
    · obtain ⟨states, -, read⟩ := bind_eq_ok_iff.mp read
      obtain ⟨firstUser, -, read⟩ := bind_eq_ok_iff.mp read
      obtain ⟨lastUser, -, read⟩ := bind_eq_ok_iff.mp read
      obtain ⟨firstGroup, -, read⟩ := bind_eq_ok_iff.mp read
      obtain ⟨lastGroup, -, read⟩ := bind_eq_ok_iff.mp read
      cases read
      exact ⟨rfl, fun zero => absurd zero later⟩

end FilterRecord.SocketMatch
