import Utot.Library.Exec

/-!
# Loops with a bounded counter

A loop that counts a machine integer up to a bound, increment by increment, and
the list of the values the counter takes.  The last increment happens after the
round of the bound itself: with the greatest value as its bound the loop has no
last test.
-/

namespace Utot.Library

variable {ε σ : Type}

/-- `for (; i <= max; i++) body`, where no counter can hold a value above `limit`. -/
def countUp (limit max : Int) (overflow : ε) (body : Int → Prog ε σ PUnit) (i : Int) :
    Prog ε σ PUnit :=
  if i ≤ max then do
    body i
    if i < limit then countUp limit max overflow body (i + 1) else fromExcept (.error overflow)
  else pure ()
termination_by (max + 1 - i).toNat
decreasing_by omega

/-- The values of a counter that starts at `i` and is incremented `n` times. -/
def counted (i : Int) (n : Nat) : List Int := (List.range n).map fun k : Nat => i + k

theorem counted_succ (i : Int) (n : Nat) : counted i (n + 1) = i :: counted (i + 1) n := by
  rw [counted, counted, List.range_succ_eq_map, List.map_cons, List.map_map]
  have shifted : ((fun k : Nat => i + k) ∘ Nat.succ) = fun k : Nat => i + 1 + k := by
    funext k
    simp only [Function.comp_apply]
    omega
  rw [shifted]
  simp

theorem length_counted (i : Int) (n : Nat) : (counted i n).length = n := by simp [counted]

variable {limit max : Int} {overflow : ε} {body : Int → Prog ε σ PUnit}

/-- The loop runs its body for the values of the counter, and overflows behind
the last one when that is the greatest value a counter holds. -/
theorem countUp_eq (fits : max ≤ limit) (i : Int) : countUp limit max overflow body i = (do
    (counted i (max + 1 - i).toNat).forM body
    if i ≤ max ∧ max = limit then fromExcept (.error overflow)) := by
  fun_induction countUp limit max overflow body i with
  | case1 i inside ih =>
      by_cases below : i < limit
      · -- The increment is defined: the test behind the last round is the one of `i + 1`.
        obtain ⟨n, rounds⟩ : ∃ n, (max + 1 - i).toNat = n + 1 := ⟨(max - i).toNat, by omega⟩
        have left : (max + 1 - (i + 1)).toNat = n := by omega
        have last : (i + 1 ≤ max ∧ max = limit) ↔ (i ≤ max ∧ max = limit) := by omega
        rw [if_pos below, ih, rounds, left, counted_succ]
        simp only [last]
        exact (bind_assoc _ _ _).symm
      · have last : i ≤ max ∧ max = limit := by omega
        have rounds : (max + 1 - i).toNat = 1 := by omega
        rw [if_neg below, if_pos last, rounds, counted_succ]
        simp [counted]
  | case2 i outside =>
      have rounds : (max + 1 - i).toNat = 0 := by omega
      have none : ¬ (i ≤ max ∧ max = limit) := fun last => outside last.1
      rw [if_neg none, rounds]
      simp [counted]

/-- Below the greatest value the loop is its rounds. -/
theorem countUp_below (below : max < limit) (i : Int) :
    countUp limit max overflow body i = (counted i (max + 1 - i).toNat).forM body := by
  rw [countUp_eq (Int.le_of_lt below) i, if_neg (by omega)]
  exact bind_pure _

end Utot.Library
