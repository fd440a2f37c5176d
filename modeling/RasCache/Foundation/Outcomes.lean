import Mathlib.Logic.Basic

/-!
# Computations that can fail

Rules for `Except` computations in which the kind of failure matters: when a
sequence fails in one way, and which failures a computation can end in.
-/
namespace Outcomes

universe u v

variable {ε : Type u} {α β : Type v} {f : α → Except ε β}

theorem bind_ok_iff {x : Except ε α} {b : β} :
    (x >>= f) = .ok b ↔ ∃ a, x = .ok a ∧ f a = .ok b := by
  cases x <;> simp [bind, Except.bind]

theorem bind_error_iff (x : Except ε α) (f : α → Except ε β) (e : ε) :
    (x >>= f) = .error e ↔ x = .error e ∨ ∃ a, x = .ok a ∧ f a = .error e := by
  cases x <;> simp [bind, Except.bind]

theorem map_ok_iff {x : Except ε α} {f : α → β} {b : β} :
    x.map f = .ok b ↔ ∃ a, x = .ok a ∧ f a = b := by
  cases x <;> simp [Except.map]

theorem map_error_iff (x : Except ε α) (f : α → β) (e : ε) : x.map f = .error e ↔ x = .error e := by
  cases x <;> simp [Except.map]

theorem toOption_some_iff {x : Except ε α} {a : α} : x.toOption = some a ↔ x = .ok a := by
  cases x <;> simp [Except.toOption]

/-- The computation does not fail with `e`. -/
def Avoids (e : ε) (x : Except ε α) : Prop := x ≠ .error e

/-- If the computation fails, then with an error in `P`. -/
def FailsIn (P : ε → Prop) (x : Except ε α) : Prop := ∀ e, x = .error e → P e

namespace FailsIn

variable {P Q : ε → Prop} {x : Except ε α}

theorem avoids {e : ε} (fails : FailsIn P x) (outside : ¬ P e) : Avoids e x :=
  fun failed => outside (fails e failed)

theorem mono (fails : FailsIn P x) (weaker : ∀ e, P e → Q e) : FailsIn Q x :=
  fun e failed => weaker e (fails e failed)

theorem ok (a : α) : FailsIn P (.ok a : Except ε α) := by
  intro _ failed
  cases failed

theorem error {e : ε} (inside : P e) : FailsIn P (.error e : Except ε α) := by
  intro _ failed
  cases failed
  exact inside

theorem ite {c : Prop} [Decidable c] {y : Except ε α} (first : FailsIn P x) (second : FailsIn P y) :
    FailsIn P (if c then x else y) := by
  split
  · exact first
  · exact second

theorem bind (first : FailsIn P x) (second : ∀ a, x = .ok a → FailsIn P (f a)) :
    FailsIn P (x >>= f) := by
  intro e failed
  rcases (bind_error_iff x f e).mp failed with early | ⟨a, ret, late⟩
  · exact first e early
  · exact second a ret e late

theorem map {f : α → β} (first : FailsIn P x) : FailsIn P (x.map f) := by
  intro e failed
  exact first e ((map_error_iff x f e).mp failed)

end FailsIn

end Outcomes
