import Mathlib.Tactic.Common

/-!
# Computations that may raise

A computation that may raise an exception is an `Except`. `bind_eq_ok` takes a successful computation
in two parts apart, so that what a method does where it raises nothing is read off part by part;
`bind_eq_error` does the same where it raises something.
-/

namespace Nublado

/-- A computation in two parts succeeds if both do. -/
theorem bind_eq_ok {ε α β : Type} {x : Except ε α} {f : α → Except ε β} {b : β} :
    x >>= f = .ok b ↔ ∃ a, x = .ok a ∧ f a = .ok b := by
  rcases x with e | a
  · simp [bind, Except.bind]
  · simp [bind, Except.bind]

/-- A successful computation whose result is changed afterwards. -/
theorem map_eq_ok {ε α β : Type} {x : Except ε α} {f : α → β} {b : β} :
    x.map f = .ok b ↔ ∃ a, x = .ok a ∧ f a = b := by
  rcases x with e | a
  · simp [Except.map]
  · simp [Except.map]

/-- A computation in two parts raises what one of them raises. -/
theorem bind_eq_error {ε α β : Type} {x : Except ε α} {f : α → Except ε β} {e : ε} :
    x >>= f = .error e ↔ x = .error e ∨ ∃ a, x = .ok a ∧ f a = .error e := by
  rcases x with e' | a
  · simp [bind, Except.bind]
  · simp [bind, Except.bind]

/-- A computation whose exceptions are replaced by others. -/
theorem mapError_eq_error {ε ε' α : Type} {x : Except ε α} {f : ε → ε'} {e : ε'} :
    x.mapError f = .error e ↔ ∃ e₀, x = .error e₀ ∧ f e₀ = e := by
  rcases x with e' | a
  · simp [Except.mapError]
  · simp [Except.mapError]

theorem mapError_eq_ok {ε ε' α : Type} {x : Except ε α} {f : ε → ε'} {a : α} :
    x.mapError f = .ok a ↔ x = .ok a := by
  rcases x with e' | a
  · simp [Except.mapError]
  · simp [Except.mapError]

end Nublado
