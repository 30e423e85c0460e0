import Mathlib.Data.List.Basic

/-!
# Words joined by a separator

Names that are built by appending separated parts to a root.  Two such names can
only be equal when their roots are, or when one root is the other one continued
behind a separator.
-/

namespace Utot.Library

variable {α ι : Type}

/-- What can stand behind a root: nothing, or a separator and more. -/
def IsTail (sep : α) (word : List α) : Prop := word = [] ∨ ∃ rest, word = sep :: rest

/-- `word` is `root`, continued behind a separator. -/
def Continues (sep : α) (root word : List α) : Prop := ∃ rest, word = root ++ sep :: rest

/-- Neither word continues the other one. -/
structure Unconfused (sep : α) (first second : List α) : Prop where
  differ : first ≠ second
  forth : ¬ Continues sep first second
  back : ¬ Continues sep second first

theorem continues_iff {sep : α} {root word : List α} :
    Continues sep root word ↔ root ++ [sep] <+: word := by
  constructor
  · rintro ⟨rest, rfl⟩
    exact ⟨rest, by rw [List.append_assoc, List.singleton_append]⟩
  · rintro ⟨rest, rfl⟩
    exact ⟨rest, by rw [List.append_assoc, List.singleton_append]⟩

instance [DecidableEq α] (sep : α) (root word : List α) : Decidable (Continues sep root word) :=
  decidable_of_iff _ continues_iff.symm

instance [DecidableEq α] (sep : α) (first second : List α) :
    Decidable (Unconfused sep first second) :=
  decidable_of_iff
    (first ≠ second ∧ ¬ Continues sep first second ∧ ¬ Continues sep second first)
    ⟨fun apart => ⟨apart.1, apart.2.1, apart.2.2⟩, fun apart => ⟨apart.1, apart.2, apart.3⟩⟩

section

variable {sep : α} {v w x y : List α}

theorem isTail_nil : IsTail sep [] := .inl rfl

theorem isTail_cons (word : List α) : IsTail sep (sep :: word) := .inr ⟨word, rfl⟩

theorem IsTail.append (first : IsTail sep v) (second : IsTail sep w) : IsTail sep (v ++ w) := by
  rcases first with rfl | ⟨rest, rfl⟩
  · exact second
  · exact .inr ⟨rest ++ w, rfl⟩

theorem Unconfused.symm (apart : Unconfused sep v w) : Unconfused sep w v :=
  ⟨apart.differ.symm, apart.back, apart.forth⟩

theorem Continues.append {root word : List α} (continues : Continues sep root word) (rest : List α) :
    Continues sep root (word ++ rest) := by
  obtain ⟨more, rfl⟩ := continues
  exact ⟨more ++ rest, by rw [List.append_assoc, List.cons_append]⟩

/-- Equal words have equal roots, or one root continues the other one. -/
theorem roots_of_append_eq (same : v ++ x = w ++ y) (tail : IsTail sep x) (tail' : IsTail sep y) :
    v = w ∧ x = y ∨ Continues sep v w ∨ Continues sep w v := by
  rcases List.append_eq_append_iff.mp same with ⟨more, longer, rest⟩ | ⟨more, longer, rest⟩
  · rcases tail with rfl | ⟨t, rfl⟩
    · obtain ⟨rfl, rfl⟩ := List.append_eq_nil_iff.mp rest.symm
      rw [List.append_nil] at longer
      exact .inl ⟨longer.symm, rfl⟩
    · cases more with
      | nil =>
          rw [List.append_nil] at longer
          exact .inl ⟨longer.symm, rest⟩
      | cons a more =>
          cases rest
          exact .inr (.inl ⟨more, longer⟩)
  · rcases tail' with rfl | ⟨t, rfl⟩
    · obtain ⟨rfl, rfl⟩ := List.append_eq_nil_iff.mp rest.symm
      rw [List.append_nil] at longer
      exact .inl ⟨longer, rfl⟩
    · cases more with
      | nil =>
          rw [List.append_nil] at longer
          exact .inl ⟨longer, rest.symm⟩
      | cons a more =>
          cases rest
          exact .inr (.inr ⟨more, longer⟩)

/-- Roots that are not confused give different words. -/
theorem Unconfused.append_ne (apart : Unconfused sep v w) (tail : IsTail sep x)
    (tail' : IsTail sep y) : v ++ x ≠ w ++ y := by
  intro same
  rcases roots_of_append_eq same tail tail' with equal | forth | back
  · exact apart.differ equal.1
  · exact apart.forth forth
  · exact apart.back back

/-- Words no two tails make equal are unconfused. -/
theorem unconfused_of_append_ne
    (apart : ∀ x y, IsTail sep x → IsTail sep y → v ++ x ≠ w ++ y) : Unconfused sep v w := by
  refine ⟨fun same => apart [] [] isTail_nil isTail_nil (by rw [same]), ?_, ?_⟩
  · rintro ⟨rest, longer⟩
    exact apart (sep :: rest) [] (isTail_cons rest) isTail_nil (by rw [List.append_nil, longer])
  · rintro ⟨rest, longer⟩
    exact apart [] (sep :: rest) isTail_nil (isTail_cons rest) (by rw [List.append_nil, longer])

theorem not_continues_of_free (free : sep ∉ w) : ¬ Continues sep v w := by
  rintro ⟨rest, rfl⟩
  exact free (List.mem_append_right _ List.mem_cons_self)

/-- Parts without separators can be read back. -/
theorem part_of_append_eq (same : v ++ x = w ++ y) (free : sep ∉ v) (free' : sep ∉ w)
    (tail : IsTail sep x) (tail' : IsTail sep y) : v = w ∧ x = y := by
  rcases roots_of_append_eq same tail tail' with equal | forth | back
  · exact equal
  · exact absurd forth (not_continues_of_free free')
  · exact absurd back (not_continues_of_free free)

/-- The parts of a list, each behind a separator. -/
def joined (sep : α) (encode : ι → List α) (parts : List ι) : List α :=
  parts.flatMap fun i => sep :: encode i

variable {encode : ι → List α}

theorem isTail_joined (parts : List ι) : IsTail sep (joined sep encode parts) := by
  cases parts with
  | nil => exact isTail_nil
  | cons i parts => exact .inr ⟨encode i ++ joined sep encode parts, rfl⟩

/-- Lists of parts without separators can be read back. -/
theorem joined_injective (free : ∀ i, sep ∉ encode i) (injective : ∀ i j, encode i = encode j → i = j)
    {parts parts' : List ι} (same : joined sep encode parts = joined sep encode parts') :
    parts = parts' := by
  induction parts generalizing parts' with
  | nil =>
      cases parts' with
      | nil => rfl
      | cons j parts' => cases same
  | cons i parts ih =>
      cases parts' with
      | nil => cases same
      | cons j parts' =>
          have rest : encode i ++ joined sep encode parts = encode j ++ joined sep encode parts' :=
            List.tail_eq_of_cons_eq same
          obtain ⟨first, later⟩ := part_of_append_eq rest (free i) (free j) (isTail_joined parts)
            (isTail_joined parts')
          rw [injective i j first, ih later]

end

end Utot.Library
