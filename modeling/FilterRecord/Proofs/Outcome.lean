/- Proofs/Outcome
   digest: When a computation that may be refused ends well. -/

import FilterRecord.Options.Occurrence

set_option autoImplicit false
set_option relaxedAutoImplicit false

namespace FilterRecord

variable {ε α β : Type}

theorem bind_eq_ok_iff {x : Except ε α} {f : α → Except ε β} {b : β} :
    (x >>= f) = .ok b ↔ ∃ a, x = .ok a ∧ f a = .ok b := by
  cases x with
  | error e => simp [bind, Except.bind]
  | ok a => simp [bind, Except.bind]

theorem map_eq_ok_iff {x : Except ε α} {f : α → β} {b : β} :
    x.map f = .ok b ↔ ∃ a, x = .ok a ∧ f a = b := by
  cases x with
  | error e => simp [Except.map]
  | ok a => simp [Except.map]

theorem map_eq_error_iff {x : Except ε α} {f : α → β} {e : ε} :
    x.map f = .error e ↔ x = .error e := by
  cases x with
  | error _ => simp [Except.map]
  | ok _ => simp [Except.map]

theorem bind_pure_eq_error_iff {x : Except ε α} {f : α → β} {e : ε} :
    (x >>= fun a => pure (f a)) = .error e ↔ x = .error e := by
  cases x with
  | error _ => simp [bind, Except.bind]
  | ok _ => simp [bind, Except.bind, pure, Except.pure]

theorem throw_bind_ne_ok {e : ε} {f : α → Except ε β} {b : β} :
    (throw e >>= f : Except ε β) ≠ .ok b := by
  simp [bind, Except.bind, throw, throwThe, MonadExceptOf.throw]

theorem commit_keeps {σ : Type} {P : σ → Prop} {state : σ} {outcome : Except RuleError σ}
    (start : P state) (made : ∀ next, outcome = .ok next → P next) :
    P (Options.commit state outcome).1 := by
  cases outcome with
  | error e => exact start
  | ok next => exact made next rfl

theorem commit_ok {σ : Type} {state next : σ} {outcome : Except RuleError σ}
    (ok : Options.commit state outcome = (next, .ok ())) : outcome = .ok next := by
  cases outcome with
  | error e => exact absurd ok (by simp [Options.commit])
  | ok made =>
    cases ok
    rfl

theorem commit_eq_ok_iff {σ : Type} {state next : σ} {outcome : Except RuleError σ} :
    Options.commit state outcome = (next, .ok ()) ↔ outcome = .ok next :=
  ⟨commit_ok, fun made => by rw [made]; rfl⟩

theorem commit_error {σ : Type} {state next : σ} {outcome : Except RuleError σ} {e : RuleError}
    (refused : Options.commit state outcome = (next, .error e)) : next = state := by
  cases outcome with
  | error _ =>
    cases refused
    rfl
  | ok _ => cases refused

end FilterRecord
