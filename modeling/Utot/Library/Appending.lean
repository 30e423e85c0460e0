import Mathlib.Data.List.Forall2
import Utot.Library.Frame

/-!
# Programs that append to an output

What a run that returns adds to a list in the state.  The added list of a
composed program is that of its parts in sequence, so that the output of a loop
is a block for each of its rounds.
-/

namespace Utot.Library

variable {ε σ α β L : Type}

/-- Every run that returns adds a list with the property to the output. -/
def Appends (out : σ → List L) (m : Prog ε σ α) (P : α → List L → Prop) : Prop :=
  ∀ s s' a, exec m s = (.ok a, s') → ∃ ls, out s' = out s ++ ls ∧ P a ls

/-- The output is left alone. -/
def sameOutput (out : σ → List L) : Frame σ where
  rel s s' := out s' = out s
  refl _ := rfl
  trans first second := second.trans first

/-- The output may have become longer. -/
def growing (out : σ → List L) : Frame σ where
  rel s s' := out s <+: out s'
  refl _ := List.prefix_rfl
  trans := List.IsPrefix.trans

namespace Appends

variable {out : σ → List L} {m : Prog ε σ α} {P Q : α → List L → Prop} {R : β → List L → Prop}

theorem ret {a : α} (holds : P a []) : Appends out (pure a : Prog ε σ α) P := by
  intro s s' b run
  cases run
  exact ⟨[], (List.append_nil _).symm, holds⟩

theorem lift {r : Except ε α} (holds : ∀ a, r = .ok a → P a []) :
    Appends out (fromExcept r : Prog ε σ α) P := by
  intro s s' a run
  rw [exec_fromExcept] at run
  cases run
  exact ⟨[], (List.append_nil _).symm, holds a rfl⟩

theorem update {f : σ → σ} {P : PUnit → List L → Prop} (ls : List L)
    (adds : ∀ s, out (f s) = out s ++ ls) (holds : P () ls) :
    Appends out (modify f : Prog ε σ PUnit) P := by
  intro s s' a run
  cases run
  exact ⟨ls, adds s, holds⟩

/-- A program that leaves the output alone. -/
theorem silent (keeps : Keeps (sameOutput out) m) (holds : ∀ a, P a []) : Appends out m P := by
  intro s s' a run
  have same := keeps s
  rw [run] at same
  exact ⟨[], by rw [List.append_nil]; exact same, holds a⟩

theorem weaken (first : Appends out m P) (wider : ∀ a ls, P a ls → Q a ls) : Appends out m Q := by
  intro s s' a run
  obtain ⟨ls, added, holds⟩ := first s s' a run
  exact ⟨ls, added, wider a ls holds⟩

theorem bind {f : α → Prog ε σ β} (first : Appends out m P)
    (next : ∀ a ls, P a ls → Appends out (f a) fun b ls' => R b (ls ++ ls')) :
    Appends out (m >>= f) R := by
  intro s s' b run
  rw [exec_bind] at run
  rcases outcome : exec m s with ⟨_ | a, middle⟩
  · rw [outcome] at run
    cases run
  · rw [outcome] at run
    obtain ⟨ls, added, holds⟩ := first s middle a outcome
    obtain ⟨ls', added', holds'⟩ := next a ls holds middle s' b run
    exact ⟨ls ++ ls', by rw [added', added, List.append_assoc], holds'⟩

/-- A part that leaves the output alone, and what follows. -/
theorem silentBind {f : α → Prog ε σ β} (keeps : Keeps (sameOutput out) m)
    (next : ∀ a, Appends out (f a) R) : Appends out (m >>= f) R :=
  Appends.bind (P := fun _ ls => ls = []) (silent keeps fun _ => rfl) fun a _ none => by
    rw [none]
    exact next a

theorem liftBind {r : Except ε α} {f : α → Prog ε σ β}
    (next : ∀ a, r = .ok a → Appends out (f a) R) : Appends out (fromExcept r >>= f) R :=
  Appends.bind (P := fun a ls => r = .ok a ∧ ls = []) (lift fun _ same => ⟨same, rfl⟩)
    fun a _ holds => by
      rw [holds.2]
      exact next a holds.1

theorem branch {c : Prop} [Decidable c] {n : Prog ε σ α} (yes : c → Appends out m P)
    (no : ¬ c → Appends out n P) : Appends out (if c then m else n) P := by
  split
  · exact yes ‹_›
  · exact no ‹_›

/-- A loop adds a block for each of its rounds, in their order. -/
theorem forM {as : List α} {f : α → Prog ε σ PUnit} {B : α → List L → Prop}
    (round : ∀ a ∈ as, Appends out (f a) fun _ => B a) :
    Appends out (as.forM f) fun _ ls => ∃ blocks, List.Forall₂ B as blocks ∧ ls = blocks.flatten := by
  induction as with
  | nil => exact ret ⟨[], .nil, rfl⟩
  | cons a as ih =>
      change Appends out (f a >>= fun _ => as.forM f) _
      refine bind (round a List.mem_cons_self) fun _ ls first => ?_
      refine (ih fun b inside => round b (List.mem_cons_of_mem _ inside)).weaken fun _ ls' later => ?_
      obtain ⟨blocks, rounds, rfl⟩ := later
      exact ⟨ls :: blocks, .cons first rounds, rfl⟩

theorem and (first : Appends out m P) (second : Appends out m Q) :
    Appends out m fun a ls => P a ls ∧ Q a ls := by
  intro s s' a run
  obtain ⟨ls, added, holds⟩ := first s s' a run
  obtain ⟨ls', added', holds'⟩ := second s s' a run
  rw [added] at added'
  cases List.append_cancel_left added'
  exact ⟨ls, added, holds, holds'⟩

/-- What is added to the elements of a kind is what is added, less the others. -/
theorem unfiltered {keep : L → Bool} (grows : Keeps (growing out) m)
    (part : Appends (fun s => (out s).filter keep) m P) :
    Appends out m fun a ls => P a (ls.filter keep) := by
  intro s s' a run
  have longer := grows s
  rw [run] at longer
  obtain ⟨ls, same⟩ : out s <+: out s' := longer
  obtain ⟨picked, added, holds⟩ := part s s' a run
  refine ⟨ls, same.symm, ?_⟩
  dsimp only at added
  rw [← same, List.filter_append] at added
  rwa [List.append_cancel_left added]

end Appends

end Utot.Library
