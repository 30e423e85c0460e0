import Utot.Library.Components
import Utot.Sync.Vectors
import Utot.Tchecker.Moves
import Utot.Tchecker.Reading
import Utot.Tchecker.Statements
import Utot.Uppaal.Network

/-!
# TChecker's network of processes

The transition system of a file, read off its lines: guards, invariants and
statements are the attributes of edges and locations, and processes move alone
or along a vector.  A weak element takes part whenever its process can take an
edge with its event.  In which order the statements of a joint move are executed
is a parameter.
-/

namespace Utot.Tchecker

open Utap Uppaal Library

/-- An order of execution: every move has an order that is allowed. -/
structure Schedule where
  allows : List (String × String) → Prop
  complete : ∀ who, ∃ who', who'.Perm who ∧ allows who'

/-- Every order is allowed. -/
def Schedule.any : Schedule := ⟨fun _ => True, fun who => ⟨who, .refl _, trivial⟩⟩

section

variable {V : Type} (A : Arithmetic V) (lines : List Line)

/-- The condition of an attribute, true if it is absent. -/
inductive Condition (key : String) (attr : List (String × String)) : (Valuation V → Prop) → Prop where
  | given {text : String} {tree : Tree} (listed : (key, text) ∈ attr) (reads : Reads text tree) :
      Condition key attr fun τ => Holds A (tree.value A τ)
  | absent (none : ∀ text, (key, text) ∉ attr) : Condition key attr fun _ => True

/-- The statements of the attribute `do`, none if it is absent. -/
inductive Does (attr : List (String × String)) : (Valuation V → Option (Valuation V)) → Prop where
  | given {text : String} {statements : List Statement} (listed : ("do", text) ∈ attr)
      (reads : ReadsUpdate text statements) : Does attr (runAll A statements)
  | absent (none : ∀ text, ("do", text) ∉ attr) : Does attr some

/-- An edge of a process between two locations. -/
inductive EdgeOf (process source : String) : String → Effect String (Valuation V) → Prop where
  | edge {target event : String} {attr : List (String × String)} {guard : Valuation V → Prop}
      {update : Valuation V → Option (Valuation V)}
      (listed : Line.edge process source target event attr ∈ lines)
      (provided : Condition A "provided" attr guard) (does : Does A attr update) :
      EdgeOf process source event ⟨guard, update, target⟩

/-- The invariant of a location of a process holds. -/
def InvariantOf (process location : String) (τ : Valuation V) : Prop :=
  ∀ attr condition, Line.location process location attr ∈ lines →
    Condition A "invariant" attr condition → condition τ

/-- The location of a process has the attribute. -/
def Marked (key process location : String) : Prop :=
  ∃ attr, Line.location process location attr ∈ lines ∧ ∃ text, (key, text) ∈ attr

/-- Who moves together: a process with an asynchronous event, or the processes of a
vector, its weak elements if they are ready. -/
inductive Together (order : Schedule) (vectors : List SyncVector) (ready : String → String → Prop) :
    List (String × String) → Prop where
  | alone {process event : String} (free : Asynchronous vectors process event) :
      Together order vectors ready [(process, event)]
  | along {v : SyncVector} {who : List (String × String)} (listed : v ∈ vectors)
      (strong : ∀ x ∈ v, x.weak = false → (x.process, x.event) ∈ who)
      (weak : ∀ x ∈ v, ready x.process x.event → (x.process, x.event) ∈ who)
      (inside : ∀ a ∈ who, ∃ x ∈ v, (x.process, x.event) = a) (ordered : order.allows who) :
      Together order vectors ready who

/-- A clock, or an array of clocks, has the name. -/
def ClockNamed (id : String) : Prop := ∃ size, Line.clock id size ∈ lines

open Classical in
/-- Time changes clocks. -/
noncomputable def pass {T : Type} (advance : T → V → V) (t : T) (τ : Valuation V) : Valuation V where
  scalar id := if ClockNamed lines id then (τ.scalar id).map (advance t) else τ.scalar id
  cell id i := if ClockNamed lines id then (τ.cell id i).map (advance t) else τ.cell id i

/-- The network of a file; no event is urgent. -/
noncomputable def network {T : Type} (advance : T → V → V) (order : Schedule) :
    Network String String String (Valuation V) T where
  edge := EdgeOf A lines
  invariant := InvariantOf A lines
  committed := Marked lines "committed"
  urgent := Marked lines "urgent"
  together := Together order (vectorsOf lines)
  hurried _ := False
  elapse := pass lines advance

end

/-! ## Initial configurations -/

/-- The initial value in the first line for the name whose size covers what is
meant; clocks start at zero. -/
def startOf (lines : List Line) (id : String) (covers : Int → Bool) : Option Int :=
  lines.findSome? fun
    | .clock id' size => if id' = id ∧ covers size = true then some 0 else none
    | .intvar _ _ v id' size => if id' = id ∧ covers size = true then some v else none
    | _ => none

/-- The variables and clocks have their initial values. -/
def initialValuation {V : Type} (A : Arithmetic V) (lines : List Line) : Valuation V where
  scalar id := (startOf lines id fun size => size = 1).map A.ofInt
  cell id i := (startOf lines id fun size => 0 ≤ i ∧ i < size).map A.ofInt

/-- Every process is in an initial location. -/
structure Starts {V : Type} (A : Arithmetic V) (lines : List Line)
    (c : Configuration String String (Valuation V)) : Prop where
  places : ∀ process name attr, Line.location process name attr ∈ lines →
    Marked lines "initial" process (c.place process)
  data : c.data = initialValuation A lines

/-! ## Frames of statements -/

section

variable {V : Type} {A : Arithmetic V} {statements : List Statement} {τ τ' : Valuation V}

theorem Statement.scalar_of_run {s : Statement} (run : s.run A τ = some τ') {id : String}
    (other : ∀ x, s ≠ .assign id x) : τ'.scalar id = τ.scalar id := by
  cases s with
  | nop =>
      cases run
      rfl
  | assign id' x =>
      obtain ⟨_, _, run⟩ := Option.bind_eq_some_iff.mp run
      obtain ⟨v, _, rfl⟩ := Option.map_eq_some_iff.mp run
      refine if_neg ?_
      rintro rfl
      exact other x rfl
  | assignElem id' i x =>
      obtain ⟨_, _, run⟩ := Option.bind_eq_some_iff.mp run
      obtain ⟨_, _, run⟩ := Option.bind_eq_some_iff.mp run
      obtain ⟨v, _, rfl⟩ := Option.map_eq_some_iff.mp run
      rfl

theorem Statement.cell_of_run {s : Statement} (run : s.run A τ = some τ') {id : String}
    (other : ∀ i x, s ≠ .assignElem id i x) (index : Int) : τ'.cell id index = τ.cell id index := by
  cases s with
  | nop =>
      cases run
      rfl
  | assign id' x =>
      obtain ⟨_, _, run⟩ := Option.bind_eq_some_iff.mp run
      obtain ⟨v, _, rfl⟩ := Option.map_eq_some_iff.mp run
      rfl
  | assignElem id' i x =>
      obtain ⟨_, _, run⟩ := Option.bind_eq_some_iff.mp run
      obtain ⟨_, _, run⟩ := Option.bind_eq_some_iff.mp run
      obtain ⟨v, _, rfl⟩ := Option.map_eq_some_iff.mp run
      refine if_neg ?_
      rintro ⟨rfl, _⟩
      exact other i x rfl

/-- Variables no statement assigns to keep their values. -/
theorem scalar_of_runAll (run : runAll A statements τ = some τ') {id : String}
    (other : ∀ s ∈ statements, ∀ x, s ≠ .assign id x) : τ'.scalar id = τ.scalar id := by
  induction statements generalizing τ with
  | nil =>
      cases run
      rfl
  | cons s rest ih =>
      obtain ⟨middle, first, later⟩ := Option.bind_eq_some_iff.mp run
      rw [ih later fun s member => other s (List.mem_cons_of_mem _ member),
        Statement.scalar_of_run first (other s List.mem_cons_self)]

theorem cell_of_runAll (run : runAll A statements τ = some τ') {id : String}
    (other : ∀ s ∈ statements, ∀ i x, s ≠ .assignElem id i x) (index : Int) :
    τ'.cell id index = τ.cell id index := by
  induction statements generalizing τ with
  | nil =>
      cases run
      rfl
  | cons s rest ih =>
      obtain ⟨middle, first, later⟩ := Option.bind_eq_some_iff.mp run
      rw [ih later fun s member => other s (List.mem_cons_of_mem _ member),
        Statement.cell_of_run first (other s List.mem_cons_self)]

end

end Utot.Tchecker
