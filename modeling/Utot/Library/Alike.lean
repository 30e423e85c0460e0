import Mathlib.Data.List.Forall2
import Utot.Library.Exec

/-!
# Two programs with the same outcome

Two programs run side by side from related states: they end with the same result
or the same error, in related states.  The relation is read off the texts of the
programs.
-/

namespace Utot.Library

variable {ε σ α β : Type}

/-- From related states both programs end alike, in related states. -/
def Alike (R : σ → σ → Prop) (m m' : Prog ε σ α) : Prop :=
  ∀ s s', R s s' → (exec m s).1 = (exec m' s').1 ∧ R (exec m s).2 (exec m' s').2

namespace Alike

variable {R : σ → σ → Prop} {m m' : Prog ε σ α}

theorem ret (a : α) : Alike R (pure a : Prog ε σ α) (pure a) := fun _ _ related => ⟨rfl, related⟩

theorem lift (r : Except ε α) : Alike R (fromExcept r : Prog ε σ α) (fromExcept r) :=
  fun _ _ related => ⟨rfl, related⟩

theorem update {f g : σ → σ} (kept : ∀ s s', R s s' → R (f s) (g s')) :
    Alike R (modify f : Prog ε σ PUnit) (modify g) :=
  fun s s' related => ⟨rfl, kept s s' related⟩

theorem bind {f f' : α → Prog ε σ β} (first : Alike R m m') (next : ∀ a, Alike R (f a) (f' a)) :
    Alike R (m >>= f) (m' >>= f') := by
  intro s s' related
  obtain ⟨same, later⟩ := first s s' related
  rw [exec_bind, exec_bind]
  rcases outcome : exec m s with ⟨e | a, t⟩
  all_goals
    rcases outcome' : exec m' s' with ⟨e' | a', t'⟩
    all_goals
      rw [outcome, outcome'] at same later
      cases same
  · exact ⟨rfl, later⟩
  · exact next a t t' later

/-- A computation without state in front of two programs. -/
theorem liftBind {r : Except ε α} {f f' : α → Prog ε σ β}
    (next : ∀ a, r = .ok a → Alike R (f a) (f' a)) :
    Alike R (fromExcept r >>= f) (fromExcept r >>= f') := by
  cases r with
  | error e => exact fun _ _ related => ⟨rfl, related⟩
  | ok a => exact next a rfl

/-- What follows may look at both states. -/
theorem read {f f' : σ → Prog ε σ β} (next : ∀ s s', R s s' → Alike R (f s) (f' s')) :
    Alike R (get >>= f) (get >>= f') := fun s s' related => next s s' related s s' related

theorem branch {c : Prop} [Decidable c] {n n' : Prog ε σ α} (yes : c → Alike R m m')
    (no : ¬ c → Alike R n n') : Alike R (if c then m else n) (if c then m' else n') := by
  split
  · exact yes ‹_›
  · exact no ‹_›

theorem forM {as : List α} {f f' : α → Prog ε σ PUnit} (round : ∀ a ∈ as, Alike R (f a) (f' a)) :
    Alike R (as.forM f) (as.forM f') := by
  induction as with
  | nil => exact ret _
  | cons a as ih =>
      change Alike R (f a >>= fun _ => as.forM f) (f' a >>= fun _ => as.forM f')
      exact bind (round a List.mem_cons_self) fun _ =>
        ih fun b inside => round b (List.mem_cons_of_mem _ inside)

/-- Loops over different lists, round by round. -/
theorem forM₂ {γ : Type} {as : List α} {bs : List γ} {f : α → Prog ε σ PUnit} {g : γ → Prog ε σ PUnit}
    (rounds : List.Forall₂ (fun a b => Alike R (f a) (g b)) as bs) : Alike R (as.forM f) (bs.forM g) := by
  induction rounds with
  | nil => exact ret _
  | cons round _ ih => exact bind round fun _ => ih

theorem foldlM {as : List α} {f f' : β → α → Prog ε σ β}
    (round : ∀ a ∈ as, ∀ b, Alike R (f b a) (f' b a)) (b : β) :
    Alike R (as.foldlM f b) (as.foldlM f' b) := by
  induction as generalizing b with
  | nil => exact ret b
  | cons a as ih =>
      rw [List.foldlM_cons, List.foldlM_cons]
      exact bind (round a List.mem_cons_self b)
        fun b' => ih (fun c inside => round c (List.mem_cons_of_mem _ inside)) b'

/-- A first part that only returns on the left. -/
theorem bindReturns {k : Prog ε σ PUnit} {f : PUnit → Prog ε σ β} {m' : Prog ε σ β}
    (first : Alike R k (pure PUnit.unit)) (next : Alike R (f PUnit.unit) m') :
    Alike R (k >>= f) m' := bind first fun _ => next

/-- A look at the state on the left. -/
theorem readLeft {f : σ → Prog ε σ β} {m' : Prog ε σ β} (next : ∀ s, Alike R (f s) m') :
    Alike R (get >>= f) m' := fun s s' related => next s s s' related

/-- A loop of parts that only return. -/
theorem forM_returns {as : List α} {f : α → Prog ε σ PUnit}
    (round : ∀ a, Alike R (f a) (pure PUnit.unit)) : Alike R (as.forM f) (pure PUnit.unit) := by
  induction as with
  | nil => exact ret _
  | cons a as ih =>
      change Alike R (f a >>= fun _ => as.forM f) (pure PUnit.unit)
      exact bindReturns (round a) ih

/-- Two parts that only return. -/
theorem both {k k' : Prog ε σ PUnit} (equivalence : Equivalence R)
    (left : Alike R k (pure PUnit.unit)) (right : Alike R k' (pure PUnit.unit)) : Alike R k k' := by
  intro s s' related
  have first := left s s' related
  have second := right s' s' (equivalence.refl s')
  exact ⟨first.1.trans second.1.symm, equivalence.trans first.2 (equivalence.symm second.2)⟩

/-- Behind a part that does not return nothing matters. -/
theorem bind_stuck {f f' : α → Prog ε σ β} (first : Alike R m m')
    (stuck : ∀ s a s', exec m' s ≠ (.ok a, s')) : Alike R (m >>= f) (m' >>= f') := by
  intro s s' related
  obtain ⟨same, later⟩ := first s s' related
  rw [exec_bind, exec_bind]
  rcases outcome' : exec m' s' with ⟨e' | a', t'⟩
  · rcases outcome : exec m s with ⟨e | a, t⟩
    all_goals
      rw [outcome, outcome'] at same later
      cases same
    exact ⟨rfl, later⟩
  · exact absurd outcome' (stuck s' a' t')

/-- A loop whose first round does not return. -/
theorem forM_stuck {a : α} {as : List α} {f f' : α → Prog ε σ PUnit} (first : Alike R (f a) (f' a))
    (stuck : ∀ s u s', exec (f' a) s ≠ (.ok u, s')) :
    Alike R ((a :: as).forM f) ((a :: as).forM f') := by
  change Alike R (f a >>= fun _ => as.forM f) (f' a >>= fun _ => as.forM f')
  exact bind_stuck first stuck

end Alike

end Utot.Library
