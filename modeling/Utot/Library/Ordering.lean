import Mathlib.Data.List.Nodup

/-!
# Sequences that introduce names before they use them

A sequence of items, each of which may introduce one name and need some others.
`Ordered` grows by one item at the end, as an output that is written line by
line does; its consequences speak of the finished sequence.
-/

namespace Utot.Library

variable {ι ν : Type}

/-- What an item introduces and what it needs. -/
structure Naming (ι ν : Type) where
  introduces : ι → Option ν
  needs : ι → List ν

/-- The names a sequence introduces, in order. -/
def Naming.names (N : Naming ι ν) (items : List ι) : List ν := items.filterMap N.introduces

/-- Every item needs only names introduced earlier and introduces a new one. -/
inductive Ordered (N : Naming ι ν) : List ι → Prop where
  | nil : Ordered N []
  | snoc {items : List ι} {item : ι} (ordered : Ordered N items)
      (needs : ∀ n ∈ N.needs item, n ∈ N.names items)
      (fresh : ∀ n, N.introduces item = some n → n ∉ N.names items) :
      Ordered N (items ++ [item])

section

variable {N : Naming ι ν}

@[simp] theorem names_nil : N.names [] = [] := rfl

theorem names_snoc (items : List ι) (item : ι) :
    N.names (items ++ [item]) = N.names items ++ (N.introduces item).toList := by
  unfold Naming.names
  rw [List.filterMap_append]
  cases introduced : N.introduces item with
  | none => rw [List.filterMap_cons_none introduced, List.filterMap_nil, Option.toList_none]
  | some n => rw [List.filterMap_cons_some introduced, List.filterMap_nil, Option.toList_some]

theorem mem_names_snoc {items : List ι} {item : ι} {n : ν} :
    n ∈ N.names (items ++ [item]) ↔ n ∈ N.names items ∨ N.introduces item = some n := by
  rw [names_snoc, List.mem_append, Option.mem_toList]

/-- No name is introduced twice. -/
theorem Ordered.nodup {items : List ι} (ordered : Ordered N items) : (N.names items).Nodup := by
  induction ordered with
  | nil => exact List.nodup_nil
  | snoc ordered needs fresh ih =>
      rw [names_snoc]
      refine List.nodup_append.mpr ⟨ih, ?_, ?_⟩
      · cases N.introduces _ with
        | none => exact List.nodup_nil
        | some n => exact List.nodup_singleton n
      · intro n earlier m now same
        rw [Option.mem_toList] at now
        subst same
        exact fresh n now earlier

/-- What an item needs is introduced in front of it. -/
theorem Ordered.before {items : List ι} (ordered : Ordered N items) {front back : List ι} {item : ι}
    (split : items = front ++ item :: back) : ∀ n ∈ N.needs item, n ∈ N.names front := by
  induction ordered generalizing back with
  | nil =>
      cases front with
      | nil => cases split
      | cons _ _ => cases split
  | snoc ordered needs fresh ih =>
      rcases List.eq_nil_or_concat back with rfl | ⟨back', last, rfl⟩
      · obtain ⟨rfl, same⟩ := List.append_inj' split rfl
        cases same
        exact needs
      · rw [List.concat_eq_append, ← List.cons_append, ← List.append_assoc] at split
        obtain ⟨rfl, _⟩ := List.append_inj' split rfl
        exact ih rfl

end

end Utot.Library
