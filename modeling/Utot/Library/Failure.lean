import Utot.Library.Exec

/-!
# How programs fail

Which errors a computation may end with, whatever state it starts in.
-/

namespace Utot.Library

variable {ε σ α β : Type}

/-- Every error of the computation satisfies `E`. -/
def Fails (E : ε → Prop) (r : Except ε α) : Prop := ∀ e, r = .error e → E e

/-- Every error a program throws satisfies `E`. -/
def Throws (E : ε → Prop) (m : Prog ε σ α) : Prop := ∀ s, Fails E (exec m s).1

namespace Fails

variable {E : ε → Prop}

theorem ret (a : α) : Fails E (.ok a) := by
  intro e failed
  cases failed

theorem raise {e : ε} (allowed : E e) : Fails E (.error e : Except ε α) := by
  intro e' failed
  cases failed
  exact allowed

theorem bind {r : Except ε α} {f : α → Except ε β} (first : Fails E r)
    (next : ∀ a, Fails E (f a)) : Fails E (r >>= f) := by
  cases r with
  | error e => exact raise (first e rfl)
  | ok a => exact next a

/-- What follows only has to be looked at for what has been returned. -/
theorem following {r : Except ε α} {f : α → Except ε β} (first : Fails E r)
    (next : ∀ a, r = .ok a → Fails E (f a)) : Fails E (r >>= f) := by
  cases r with
  | error e => exact raise (first e rfl)
  | ok a => exact next a rfl

theorem branch {c : Prop} [Decidable c] {r r' : Except ε α} (yes : Fails E r)
    (no : Fails E r') : Fails E (if c then r else r') := by
  by_cases holds : c
  · rw [if_pos holds]
    exact yes
  · rw [if_neg holds]
    exact no

theorem foldlM {as : List α} {f : β → α → Except ε β} (round : ∀ b a, Fails E (f b a)) (b : β) :
    Fails E (as.foldlM f b) := by
  induction as generalizing b with
  | nil => exact ret b
  | cons a as ih =>
      rw [List.foldlM_cons]
      exact bind (round b a) ih

end Fails

namespace Throws

variable {E : ε → Prop} {m : Prog ε σ α}

theorem ret (a : α) : Throws E (pure a : Prog ε σ α) := fun _ => Fails.ret a

theorem lift {r : Except ε α} (fails : Fails E r) : Throws E (fromExcept r : Prog ε σ α) :=
  fun _ => fails

theorem update (f : σ → σ) : Throws E (modify f : Prog ε σ PUnit) := fun _ => Fails.ret _

theorem read : Throws E (get : Prog ε σ σ) := fun s => Fails.ret s

theorem bind {f : α → Prog ε σ β} (first : Throws E m) (next : ∀ a, Throws E (f a)) :
    Throws E (m >>= f) := by
  intro s
  have start := first s
  rw [exec_bind]
  rcases outcome : exec m s with ⟨e | a, s'⟩
  · rw [outcome] at start
    exact Fails.raise (start e rfl)
  · exact next a s'

theorem branch {c : Prop} [Decidable c] {n : Prog ε σ α} (yes : Throws E m) (no : Throws E n) :
    Throws E (if c then m else n) := by
  by_cases holds : c
  · rw [if_pos holds]
    exact yes
  · rw [if_neg holds]
    exact no

theorem forM {as : List α} {f : α → Prog ε σ PUnit} (round : ∀ a, Throws E (f a)) :
    Throws E (as.forM f) := by
  induction as with
  | nil => exact ret _
  | cons a as ih =>
      change Throws E (f a >>= fun _ => as.forM f)
      exact bind (round a) fun _ => ih

theorem foldlM {as : List α} {f : β → α → Prog ε σ β} (round : ∀ b a, Throws E (f b a)) (b : β) :
    Throws E (as.foldlM f b) := by
  induction as generalizing b with
  | nil => exact ret b
  | cons a as ih =>
      rw [List.foldlM_cons]
      exact bind (round b a) ih

end Throws

end Utot.Library
