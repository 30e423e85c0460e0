import Utot.Tchecker.Lines
import Mathlib.Data.Set.Basic

/-!
# Moves of a synchronised system

How TChecker reads `sync` lines: the processes of a vector move together, a
weak element only if its process takes part, and an edge whose event is in no
vector of its process is asynchronous.
-/

namespace Utot.Tchecker

/-- The edges of the processes: a process and the event of one of its edges. -/
abbrev Edges := Set (String × String)

/-- The edge may be taken alone: no vector mentions it. -/
def Asynchronous (vectors : List SyncVector) (process event : String) : Prop :=
  ∀ v ∈ vectors, ∀ x ∈ v, (x.process, x.event) ≠ (process, event)

instance (vectors : List SyncVector) (process event : String) :
    Decidable (Asynchronous vectors process event) :=
  inferInstanceAs (Decidable (∀ v ∈ vectors, ∀ x ∈ v, (x.process, x.event) ≠ (process, event)))

/-- The participants of a move along a vector: all of its strong elements, some
of its weak ones, each with an edge to take. -/
structure MovesAlong (v : SyncVector) (edges : Edges) (who : Edges) : Prop where
  strong : ∀ x ∈ v, x.weak = false → (x.process, x.event) ∈ who
  inside : ∀ a ∈ who, ∃ x ∈ v, (x.process, x.event) = a
  enabled : who ⊆ edges

/-- A move of several processes along one of the vectors. -/
def JointMove (vectors : List SyncVector) (edges who : Edges) : Prop :=
  ∃ v ∈ vectors, MovesAlong v edges who

/-- A vector of strong elements moves as a whole or not at all. -/
theorem movesAlong_strong_iff {v : SyncVector} {edges who : Edges}
    (strong : ∀ x ∈ v, x.weak = false) :
    MovesAlong v edges who ↔
      who = { a | ∃ x ∈ v, (x.process, x.event) = a } ∧
        ∀ x ∈ v, (x.process, x.event) ∈ edges := by
  constructor
  · intro moves
    have all : ∀ x ∈ v, (x.process, x.event) ∈ who :=
      fun x member => moves.strong x member (strong x member)
    refine ⟨Set.ext fun a => ⟨moves.inside a, ?_⟩, fun x member => moves.enabled (all x member)⟩
    rintro ⟨x, member, rfl⟩
    exact all x member
  · rintro ⟨rfl, enabled⟩
    refine ⟨fun x member _ => ⟨x, member, rfl⟩, fun a inside => inside, ?_⟩
    rintro a ⟨x, member, rfl⟩
    exact enabled x member

end Utot.Tchecker
