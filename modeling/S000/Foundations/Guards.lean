import Mathlib.Tactic.Common

/-!
# Foundations/Guards — sequences of checks

A Go function that returns early on an error is a sequence of checks in `Except`.  The lemmas say
what a sequence that succeeds has passed, one check at a time, and where the results of a loop come
from.
-/

namespace S000

variable {ε α β : Type}

/-- `if c { return e }`. -/
def failIf (c : Prop) [Decidable c] (e : ε) : Except ε Unit := if c then .error e else .ok ()

/-- A value, or the error to return when there is none. -/
def orThrow (o : Option α) (e : ε) : Except ε α :=
  match o with
  | some a => .ok a
  | none => .error e

variable {f : α → Except ε β}

theorem bind_eq_ok {x : Except ε α} {b : β} : (x >>= f) = .ok b ↔ ∃ a, x = .ok a ∧ f a = .ok b := by
  cases x <;> simp [bind, Except.bind]

@[simp] theorem failIf_bind_eq_ok {c : Prop} [Decidable c] {e : ε} {f : Unit → Except ε β} {b : β} :
    (failIf c e >>= f) = .ok b ↔ ¬ c ∧ f () = .ok b := by
  by_cases h : c <;> simp [failIf, bind, Except.bind, h]

@[simp] theorem orThrow_bind_eq_ok {o : Option α} {e : ε} {b : β} :
    (orThrow o e >>= f) = .ok b ↔ ∃ a, o = some a ∧ f a = .ok b := by
  cases o <;> simp [orThrow, bind, Except.bind]

@[simp] theorem pure_eq_ok {a b : α} : (pure a : Except ε α) = .ok b ↔ a = b := by
  simp [pure, Except.pure]

end S000
