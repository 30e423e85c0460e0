import Utot.Library.Exec

/-!
# Programs whose outcome does not depend on the state

A program that only writes to its state returns, or throws, what the same
computation without the state does.
-/

namespace Utot.Library

variable {ε σ α β : Type}

/-- Whatever the state, the program ends like the computation. -/
def Outcome (m : Prog ε σ α) (r : Except ε α) : Prop := ∀ s, (exec m s).1 = r

namespace Outcome

variable {m n : Prog ε σ α} {r r' : Except ε α}

theorem ret (a : α) : Outcome (pure a : Prog ε σ α) (.ok a) := fun _ => rfl

theorem lift (r : Except ε α) : Outcome (fromExcept r : Prog ε σ α) r := fun _ => rfl

theorem update (f : σ → σ) : Outcome (modify f : Prog ε σ PUnit) (.ok ()) := fun _ => rfl

theorem bind {f : α → Prog ε σ β} {g : α → Except ε β} (first : Outcome m r)
    (next : ∀ a, Outcome (f a) (g a)) : Outcome (m >>= f) (r >>= g) := by
  intro s
  have start := first s
  rw [exec_bind]
  rcases outcome : exec m s with ⟨e | a, s'⟩
  · rw [outcome] at start
    rw [← start]
    rfl
  · rw [outcome] at start
    rw [← start]
    exact next a s'

/-- A part that only returns leaves the outcome to what follows. -/
theorem after {u : PUnit} {k : Prog ε σ PUnit} {f : PUnit → Prog ε σ β} {r : Except ε β}
    (first : Outcome k (.ok u)) (next : Outcome (f u) r) : Outcome (k >>= f) r :=
  bind (g := fun _ => r) first fun _ => next

/-- A last part that only returns. -/
theorem finish {k : Prog ε σ PUnit} {f : PUnit → Prog ε σ PUnit} {r : Except ε PUnit}
    (first : Outcome k r) (next : ∀ u, Outcome (f u) (.ok ())) : Outcome (k >>= f) r := by
  have whole := bind first next
  cases r with
  | error e => exact whole
  | ok u => exact whole

theorem branch {c : Prop} [Decidable c] (yes : Outcome m r) (no : Outcome n r') :
    Outcome (if c then m else n) (if c then r else r') := by
  by_cases holds : c
  · rw [if_pos holds, if_pos holds]
    exact yes
  · rw [if_neg holds, if_neg holds]
    exact no

theorem forM {as : List α} {f : α → Prog ε σ PUnit} {g : α → Except ε PUnit}
    (round : ∀ a, Outcome (f a) (g a)) : Outcome (as.forM f) (as.forM g) := by
  induction as with
  | nil => exact ret _
  | cons a as ih => exact bind (round a) fun _ => ih

end Outcome

end Utot.Library
