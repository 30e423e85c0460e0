import Mathlib.Data.List.Basic

/-!
# Texts that part

Two texts that are put together from corresponding pieces are equal, or they go
on with different letters at the first piece that differs.  What is known of
equal pieces is then known of equal texts, whatever else the pieces consist of.
-/

namespace Utot.Library

variable {α : Type}

/-- Behind a common beginning the words go on with different letters. -/
def Part (v w : List α) : Prop :=
  ∃ start a b v' w', a ≠ b ∧ v = start ++ a :: v' ∧ w = start ++ b :: w'

section

variable {v w x y : List α}

theorem part_of_heads {a b : α} (differ : a ≠ b) : Part (a :: v) (b :: w) :=
  ⟨[], a, b, v, w, differ, rfl, rfl⟩

theorem Part.ne (parts : Part v w) : v ≠ w := by
  rintro rfl
  obtain ⟨start, a, b, v', w', differ, first, second⟩ := parts
  have same : a :: v' = b :: w' := List.append_cancel_left (first.symm.trans second)
  exact differ (List.head_eq_of_cons_eq same)

theorem Part.symm (parts : Part v w) : Part w v := by
  obtain ⟨start, a, b, v', w', differ, first, second⟩ := parts
  exact ⟨start, b, a, w', v', differ.symm, second, first⟩

theorem Part.behind (parts : Part v w) : Part (v ++ x) (w ++ y) := by
  obtain ⟨start, a, b, v', w', differ, rfl, rfl⟩ := parts
  exact ⟨start, a, b, v' ++ x, w' ++ y, differ, List.append_assoc _ _ _, List.append_assoc _ _ _⟩

theorem Part.before (parts : Part v w) : Part (x ++ v) (x ++ w) := by
  obtain ⟨start, a, b, v', w', differ, rfl, rfl⟩ := parts
  exact ⟨x ++ start, a, b, v', w', differ, (List.append_assoc _ _ _).symm, (List.append_assoc _ _ _).symm⟩

end

/-- The texts part unless they are equal, and are equal only if `P` holds. -/
structure Tells (P : Prop) (s t : String) : Prop where
  part : s ≠ t → Part s.toList t.toList
  same : s = t → P

namespace Tells

variable {P Q : Prop} {s t u v : String}

theorem imp (tells : Tells P s t) (follows : P → Q) : Tells Q s t :=
  ⟨tells.part, fun equal => follows (tells.same equal)⟩

theorem refl (s : String) (holds : P) : Tells P s s :=
  ⟨fun differ => absurd rfl differ, fun _ => holds⟩

theorem symm (tells : Tells P s t) : Tells P t s :=
  ⟨fun differ => (tells.part differ.symm).symm, fun equal => tells.same equal.symm⟩

theorem of_part (parts : Part s.toList t.toList) : Tells P s t :=
  ⟨fun _ => parts, fun equal => absurd (congrArg String.toList equal) parts.ne⟩

/-- Pieces that are put together tell what each of them tells. -/
theorem append (first : Tells P s t) (second : Tells Q u v) : Tells (P ∧ Q) (s ++ u) (t ++ v) := by
  by_cases equal : s = t
  · subst equal
    constructor
    · intro differ
      rw [String.toList_append, String.toList_append]
      refine (second.part ?_).before
      rintro rfl
      exact differ rfl
    · intro whole
      exact ⟨first.same rfl, second.same (String.append_right_inj s |>.mp whole)⟩
  · refine of_part ?_
    rw [String.toList_append, String.toList_append]
    exact (first.part equal).behind

theorem before (front : String) (tells : Tells P s t) : Tells P (front ++ s) (front ++ t) :=
  ((refl front trivial).append tells).imp And.right

theorem behind (tells : Tells P s t) (back : String) : Tells P (s ++ back) (t ++ back) :=
  (tells.append (refl back trivial)).imp And.left

end Tells

end Utot.Library
