import Mathlib.Data.Nat.Basic

/-!
# Chains of checks

A computation that may fail is a chain of checks in `Except`. These rules say
when a link of the chain succeeds, so that the success of the whole is taken
apart from the outside in.
-/

universe u

namespace Except

variable {ε ε' : Type*} {α β : Type u}

@[simp] theorem ok_bind (a : α) (f : α → Except ε β) : (Except.ok a >>= f) = f a := rfl

/-- Both computations succeed, the second on the result of the first. -/
theorem bind_eq_ok_iff {x : Except ε α} {f : α → Except ε β} {b : β} :
    x >>= f = .ok b ↔ ∃ a, x = .ok a ∧ f a = .ok b := by
  cases x with
  | error e => simp [bind, Except.bind]
  | ok a => simp [bind, Except.bind]

theorem map_eq_ok_iff {x : Except ε α} {f : α → β} {b : β} :
    x.map f = .ok b ↔ ∃ a, x = .ok a ∧ f a = b := by
  cases x with
  | error e => simp [Except.map]
  | ok a => simp [Except.map]

theorem mapError_eq_ok_iff {x : Except ε α} {f : ε → ε'} {a : α} :
    x.mapError f = .ok a ↔ x = .ok a := by
  cases x with
  | error e => simp [Except.mapError]
  | ok b => simp [Except.mapError]

theorem ite_error_eq_ok_iff {limit size : ℕ} {e : ε} {x : Except ε α} {a : α} :
    (if limit < size then .error e else x) = .ok a ↔ size ≤ limit ∧ x = .ok a := by
  by_cases h : limit < size
  · simp [h, not_le.mpr h]
  · simp [h, not_lt.mp h]

end Except
