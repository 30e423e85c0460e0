import Mathlib.Algebra.BigOperators.Group.List.Basic
import Utot.Library.Alike

/-!
# Programs whose effects add up

The state is observed through an amount.  A program superposes if it ends alike
wherever it starts and adds the same amount to what was there; loops over such
programs may be run in any order.
-/

namespace Utot.Library

variable {ε σ α M : Type} [AddCommMonoid M]

/-- Next to any other amount the program ends alike and leaves that amount alone. -/
def Superposes (amount : σ → M) (m : Prog ε σ α) : Prop :=
  ∀ base, Alike (fun s s' => amount s = base + amount s') m m

/-- What a program adds to nothing. -/
def contribution (amount : σ → M) (start : σ) (m : Prog ε σ PUnit) : M := amount (exec m start).2

section

variable {amount : σ → M} {start : σ} (nothing : amount start = 0)

include nothing

theorem Superposes.adds {m : Prog ε σ PUnit} (superposes : Superposes amount m) (s : σ) :
    (exec m s).1 = (exec m start).1 ∧
      amount (exec m s).2 = amount s + contribution amount start m := by
  have split : amount s = amount s + amount start := by rw [nothing, add_zero]
  exact superposes (amount s) s start split

variable {f : α → Prog ε σ PUnit} {as bs : List α}

/-- A loop returns if each round does on its own, and adds up what the rounds add. -/
theorem forM_superposed (each : ∀ a ∈ as, Superposes amount (f a)) (s : σ) :
    ((exec (as.forM f) s).1 = .ok () ↔ ∀ a ∈ as, (exec (f a) start).1 = .ok ()) ∧
    ((exec (as.forM f) s).1 = .ok () → amount (exec (as.forM f) s).2 =
      amount s + (as.map fun a => contribution amount start (f a)).sum) := by
  induction as generalizing s with
  | nil => exact ⟨iff_of_true rfl (List.forall_mem_nil _), fun _ => (add_zero _).symm⟩
  | cons a as ih =>
      obtain ⟨first, added⟩ := (each a List.mem_cons_self).adds nothing s
      rw [exec_forM_cons, List.forall_mem_cons, ← first, List.map_cons, List.sum_cons]
      rcases outcome : exec (f a) s with ⟨e | _, middle⟩
      · refine ⟨iff_of_false (fun done => ?_) fun both => ?_, fun done => ?_⟩
        · cases done
        · cases both.1
        · cases done
      · obtain ⟨returns, sum⟩ := ih (fun b inside => each b (List.mem_cons_of_mem _ inside)) middle
        rw [outcome] at added
        refine ⟨returns.trans (and_iff_right rfl).symm, fun done => ?_⟩
        rw [sum done, show amount middle = _ from added, add_assoc]

/-- The order of the rounds does not matter. -/
theorem forM_perm (perm : as.Perm bs) (each : ∀ a ∈ as, Superposes amount (f a)) {s s' t : σ}
    (same : amount s = amount s') (run : exec (as.forM f) s = (.ok (), t)) :
    ∃ t', exec (bs.forM f) s' = (.ok (), t') ∧ amount t' = amount t := by
  obtain ⟨returns, sum⟩ := forM_superposed nothing each s
  obtain ⟨returns', sum'⟩ :=
    forM_superposed nothing (fun b inside => each b (perm.mem_iff.mpr inside)) s'
  have done : (exec (as.forM f) s).1 = .ok () := by rw [run]
  have done' : (exec (bs.forM f) s').1 = .ok () :=
    returns'.mpr fun b inside => returns.mp done b (perm.mem_iff.mpr inside)
  refine ⟨_, Prod.ext done' rfl, ?_⟩
  calc
    amount (exec (bs.forM f) s').2
        = amount s' + (bs.map fun a => contribution amount start (f a)).sum := sum' done'
    _ = amount s + (as.map fun a => contribution amount start (f a)).sum := by
        rw [same, (perm.map _).sum_eq]
    _ = amount t := by rw [← sum done, run]

end

end Utot.Library
