import Mathlib.Data.List.Basic
import Mathlib.Data.List.Nodup

/-!
# Counting in lists

How often a predicate holds in a list that was put together from parts, and what
it means that it holds once.
-/

namespace Utot.Library

variable {α β : Type}

/-- Only the part of `a` counts. -/
theorem countP_flatMap_of_mem {a : α} {as : List α} {f : α → List β} {P : β → Bool}
    (distinct : as.Nodup) (member : a ∈ as) (others : ∀ b ∈ as, b ≠ a → (f b).countP P = 0) :
    (as.flatMap f).countP P = (f a).countP P := by
  obtain ⟨before, after, split⟩ := List.append_of_mem member
  have noneIn : ∀ part : List α, (∀ b ∈ part, b ∈ as) → a ∉ part →
      (part.flatMap f).countP P = 0 := by
    intro part inside away
    rw [List.countP_eq_zero]
    intro x found holds
    obtain ⟨b, listed, own⟩ := List.mem_flatMap.mp found
    have zero := others b (inside b listed) (ne_of_mem_of_not_mem listed away)
    exact List.countP_eq_zero.mp zero x own holds
  rw [split, List.nodup_append, List.nodup_cons] at distinct
  obtain ⟨_, ⟨later, _⟩, earlier⟩ := distinct
  have zeroBefore := noneIn before (fun b listed => by rw [split]; simp [listed])
    fun listed => earlier a listed a List.mem_cons_self rfl
  have zeroAfter := noneIn after (fun b listed => by rw [split]; simp [listed]) later
  rw [split, List.flatMap_append, List.flatMap_cons, List.countP_append, List.countP_append,
    zeroBefore, zeroAfter, Nat.zero_add, Nat.add_zero]

/-- A predicate that holds once holds of one element. -/
theorem eq_of_countP_eq_one {as : List α} {P : α → Bool} (once : as.countP P = 1) {a b : α}
    (memberA : a ∈ as) (memberB : b ∈ as) (holdsA : P a = true) (holdsB : P b = true) : a = b := by
  rw [List.countP_eq_length_filter, List.length_eq_one_iff] at once
  obtain ⟨c, only⟩ := once
  have isC : ∀ x ∈ as, P x = true → x = c := fun x member holds => by
    have kept : x ∈ as.filter P := List.mem_filter.mpr ⟨member, holds⟩
    rwa [only, List.mem_singleton] at kept
  exact (isC a memberA holdsA).trans (isC b memberB holdsB).symm

end Utot.Library
