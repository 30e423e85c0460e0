import Utot.Library.Ordering
import Utot.Tchecker.Lines

/-!
# Names in the TChecker format

Which names a line introduces and which it needs, and what it means that a
model declares everything it uses, once and in front of the first use.
-/

namespace Utot.Tchecker

open Library

/-- What a line can introduce; a location belongs to its process. -/
inductive Name where
  | process (id : String)
  | event (id : String)
  | location (process id : String)
  deriving DecidableEq, Repr

/-- The name a line introduces. -/
def introduces : Line → Option Name
  | .process id => some (.process id)
  | .event id => some (.event id)
  | .location process id _ => some (.location process id)
  | _ => none

/-- The names a line uses. -/
def needs : Line → List Name
  | .location process _ _ => [.process process]
  | .edge process src tgt event _ =>
      [.process process, .location process src, .location process tgt, .event event]
  | .sync vector => vector.flatMap fun x => [.process x.process, .event x.event]
  | _ => []

def lineNames : Naming Line Name := ⟨introduces, needs⟩

/-- Every name a line uses is introduced by exactly one line, in front of it. -/
def DeclaredOnce (lines : List Line) : Prop :=
  ∀ front line back, lines = front ++ line :: back → ∀ n ∈ needs line,
    (lineNames.names lines).count n = 1 ∧ n ∈ lineNames.names front

theorem declaredOnce_of_ordered {lines : List Line} (ordered : Ordered lineNames lines) :
    DeclaredOnce lines := by
  intro front line back split n needed
  have earlier : n ∈ lineNames.names front := ordered.before split n needed
  refine ⟨List.count_eq_one_of_mem ordered.nodup ?_, earlier⟩
  rw [split]
  unfold Naming.names
  rw [List.filterMap_append]
  exact List.mem_append_left _ earlier

end Utot.Tchecker
