import Utot.Library.Frame

/-!
# What a run that returns has achieved

A property some part of a program establishes holds when the whole program
returns, provided the other parts stay within a frame that keeps it.
-/

namespace Utot.Library

variable {ε σ α β : Type}

/-- Every run that returns ends in a state with the property. -/
def Achieves (m : Prog ε σ α) (C : σ → Prop) : Prop := ∀ s a s', exec m s = (.ok a, s') → C s'

/-- The property survives the changes of the frame. -/
def Frame.Stable (R : Frame σ) (C : σ → Prop) : Prop := ∀ s s', R.rel s s' → C s → C s'

namespace Achieves

variable {R : Frame σ} {C : σ → Prop} {m : Prog ε σ α} {f : α → Prog ε σ β}

/-- What the computation returned may be used behind it. -/
theorem lift {r : Except ε α} {P : Prop} (holds : ∀ a, r = .ok a → P) :
    Achieves (fromExcept r : Prog ε σ α) fun _ => P := by
  intro s a s' run
  rw [exec_fromExcept] at run
  cases run
  exact holds a rfl

/-- The first part establishes the property and the rest keeps it. -/
theorem first (stable : R.Stable C) (start : Achieves m C) (rest : ∀ a, Keeps R (f a)) :
    Achieves (m >>= f) C := by
  intro s b s' run
  rw [exec_bind] at run
  rcases outcome : exec m s with ⟨_ | a, middle⟩
  · rw [outcome] at run
    cases run
  · rw [outcome] at run
    have kept := rest a middle
    dsimp only at run
    rw [run] at kept
    exact stable middle s' kept (start s a middle outcome)

/-- A later part establishes the property. -/
theorem later (next : ∀ a, Achieves (f a) C) : Achieves (m >>= f) C := by
  intro s b s' run
  rw [exec_bind] at run
  rcases outcome : exec m s with ⟨_ | a, middle⟩
  · rw [outcome] at run
    cases run
  · rw [outcome] at run
    exact next a middle b s' run

theorem liftBind {r : Except ε α} (next : ∀ a, r = .ok a → Achieves (f a) C) :
    Achieves (fromExcept r >>= f) C := by
  intro s b s' run
  rw [exec_bind, exec_fromExcept] at run
  cases outcome : r with
  | error e =>
      rw [outcome] at run
      cases run
  | ok a =>
      rw [outcome] at run
      exact next a outcome s b s' run

theorem branch {c : Prop} [Decidable c] {n : Prog ε σ α} (yes : Achieves m C) (no : Achieves n C) :
    Achieves (if c then m else n) C := by
  by_cases holds : c
  · rw [if_pos holds]
    exact yes
  · rw [if_neg holds]
    exact no

/-- One round of a loop establishes the property. -/
theorem forM {as : List α} {g : α → Prog ε σ PUnit} {a : α} (inside : a ∈ as) (stable : R.Stable C)
    (round : Achieves (g a) C) (keeps : ∀ b ∈ as, Keeps R (g b)) : Achieves (as.forM g) C := by
  induction as with
  | nil => exact absurd inside List.not_mem_nil
  | cons b as ih =>
      change Achieves (g b >>= fun _ => as.forM g) C
      have others : ∀ b ∈ as, Keeps R (g b) := fun b listed => keeps b (List.mem_cons_of_mem _ listed)
      rcases List.mem_cons.mp inside with rfl | listed
      · exact first stable round fun _ => Keeps.forM others
      · exact later fun _ => ih listed others

end Achieves

end Utot.Library
