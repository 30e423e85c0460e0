/-!
# Computations that return more often

A computation lifts to another one when every result of the first is a result of
the second: more fuel, or a larger environment, leaves what has been returned as
it is.
-/

namespace Utot.Library

variable {ε α β : Type}

/-- What the first computation returns, the second returns as well. -/
def Lifts (r r' : Except ε α) : Prop := ∀ a, r = .ok a → r' = .ok a

namespace Lifts

variable {r r' : Except ε α}

theorem refl (r : Except ε α) : Lifts r r := fun _ returned => returned

/-- A computation that fails lifts to every other. -/
theorem error (e : ε) (r : Except ε α) : Lifts (.error e) r := by
  intro a returned
  cases returned

theorem bind {f f' : α → Except ε β} (first : Lifts r r')
    (next : ∀ a, r = .ok a → Lifts (f a) (f' a)) : Lifts (r >>= f) (r' >>= f') := by
  intro b returned
  cases outcome : r with
  | error e =>
      rw [outcome] at returned
      cases returned
  | ok a =>
      rw [outcome] at returned
      rw [first a outcome]
      exact next a outcome b returned

/-- The same computation, and what follows. -/
theorem after {f f' : α → Except ε β} (next : ∀ a, r = .ok a → Lifts (f a) (f' a)) :
    Lifts (r >>= f) (r >>= f') := bind (refl r) next

theorem branch {c : Prop} [Decidable c] {s s' : Except ε α} (yes : c → Lifts r r')
    (no : ¬ c → Lifts s s') : Lifts (if c then r else s) (if c then r' else s') := by
  by_cases holds : c
  · rw [if_pos holds, if_pos holds]
    exact yes holds
  · rw [if_neg holds, if_neg holds]
    exact no holds

end Lifts

end Utot.Library
