import Mathlib.Data.List.Basic
import Mathlib.Data.List.Forall2
import Mathlib.Data.List.Perm.Basic
import Mathlib.Order.Basic

/-!
# Enumerations of products

Nested loops over keys: the values of a key may depend on a state in which the
values of the keys in front of it have been bound.  The tuples come in
lexicographic order.
-/

namespace Utot.Library

section

variable {κ α β : Type} (range : κ → β → List α) (bind : β → κ → α → β)

/-- The tuples nested loops over the keys run through. -/
def tuples : List κ → β → List (List α)
  | [], _ => [[]]
  | k :: ks, b => (range k b).flatMap fun a => (tuples ks (bind b k a)).map (a :: ·)

/-- Each value is in the range of its key, behind the values in front of it. -/
inductive Chosen : List κ → β → List α → Prop where
  | nil {b : β} : Chosen [] b []
  | cons {k : κ} {ks : List κ} {b : β} {a : α} {as : List α} (listed : a ∈ range k b)
      (later : Chosen ks (bind b k a) as) : Chosen (k :: ks) b (a :: as)

/-- The state in which the values are bound. -/
def bindTuple : List κ → β → List α → β
  | k :: ks, b, a :: as => bindTuple ks (bind b k a) as
  | _, b, _ => b

variable {range bind}

theorem mem_tuples {ks : List κ} {b : β} {as : List α} :
    as ∈ tuples range bind ks b ↔ Chosen range bind ks b as := by
  induction ks generalizing b as with
  | nil =>
      rw [tuples, List.mem_singleton]
      constructor
      · rintro rfl
        exact .nil
      · intro chosen
        cases chosen
        rfl
  | cons k ks ih =>
      rw [tuples, List.mem_flatMap]
      constructor
      · rintro ⟨a, listed, inside⟩
        obtain ⟨rest, later, rfl⟩ := List.mem_map.mp inside
        exact .cons listed (ih.mp later)
      · intro chosen
        cases chosen with
        | cons listed later => exact ⟨_, listed, List.mem_map_of_mem (ih.mpr later)⟩

theorem Chosen.length_eq {ks : List κ} {b : β} {as : List α} (chosen : Chosen range bind ks b as) :
    as.length = ks.length := by
  induction chosen with
  | nil => rfl
  | cons _ _ ih => rw [List.length_cons, List.length_cons, ih]

/-- Where the ranges are sorted, the tuples are in lexicographic order, each once. -/
theorem pairwise_tuples [LT α] (sorted : ∀ k b, (range k b).Pairwise (· < ·)) (ks : List κ) (b : β) :
    (tuples range bind ks b).Pairwise (List.Lex (· < ·)) := by
  induction ks generalizing b with
  | nil => exact List.pairwise_singleton _ _
  | cons k ks ih =>
      rw [tuples, List.pairwise_flatMap]
      constructor
      · intro a _
        rw [List.pairwise_map]
        exact (ih (bind b k a)).imp .cons
      · refine (sorted k b).imp fun less x inside y inside' => ?_
        obtain ⟨rest, _, rfl⟩ := List.mem_map.mp inside
        obtain ⟨rest', _, rfl⟩ := List.mem_map.mp inside'
        exact .rel less

end

/-! ## Blocks -/

section

variable {α β γ : Type}

/-- Lists related block by block. -/
theorem forall₂_flatten {R : β → γ → Prop} {g : α → List β} {as : List α} {blocks : List (List γ)}
    (rounds : List.Forall₂ (fun a => List.Forall₂ R (g a)) as blocks) :
    List.Forall₂ R (as.flatMap g) blocks.flatten := by
  induction rounds with
  | nil => exact .nil
  | cons first _ ih =>
      rw [List.flatMap_cons, List.flatten_cons]
      exact List.rel_append first ih

/-- Blocks of blocks. -/
theorem exists_blocks {R : β → List γ → Prop} {g : α → List β} {as : List α} {bs : List (List γ)}
    (rounds : List.Forall₂ (fun a ls => ∃ blocks, List.Forall₂ R (g a) blocks ∧ ls = blocks.flatten)
      as bs) :
    ∃ blocks, List.Forall₂ R (as.flatMap g) blocks ∧ bs.flatten = blocks.flatten := by
  induction rounds with
  | nil => exact ⟨[], .nil, rfl⟩
  | cons first _ ih =>
      obtain ⟨inner, rows, rfl⟩ := first
      obtain ⟨rest, later, same⟩ := ih
      refine ⟨inner ++ rest, ?_, ?_⟩
      · rw [List.flatMap_cons]
        exact List.rel_append rows later
      · rw [List.flatten_cons, List.flatten_append, same]

theorem exists_of_forall₂ {R : α → β → Prop} {as : List α} {bs : List β}
    (related : List.Forall₂ R as bs) {a : α} (listed : a ∈ as) : ∃ b ∈ bs, R a b := by
  induction related with
  | nil => cases listed
  | @cons a' b _ _ first _ ih =>
      rcases List.mem_cons.mp listed with rfl | later
      · exact ⟨b, List.mem_cons_self, first⟩
      · obtain ⟨b', inside, holds⟩ := ih later
        exact ⟨b', List.mem_cons_of_mem _ inside, holds⟩

theorem exists_forall₂ {R : α → β → Prop} {bs : List β} (each : ∀ b ∈ bs, ∃ a, R a b) :
    ∃ as, List.Forall₂ R as bs := by
  induction bs with
  | nil => exact ⟨[], .nil⟩
  | cons b rest ih =>
      obtain ⟨a, first⟩ := each b List.mem_cons_self
      obtain ⟨as, later⟩ := ih fun b' member => each b' (List.mem_cons_of_mem _ member)
      exact ⟨a :: as, .cons first later⟩

theorem exists_perm_of_forall₂ {R : α → β → Prop} {as : List α} {bs bs' : List β}
    (related : List.Forall₂ R as bs) (perm : bs'.Perm bs) :
    ∃ as', as.Perm as' ∧ List.Forall₂ R as' bs' := by
  obtain ⟨as', related', perm'⟩ := List.perm_comp_forall₂ perm related.flip
  exact ⟨as', perm'.symm, related'.flip⟩

end

end Utot.Library
