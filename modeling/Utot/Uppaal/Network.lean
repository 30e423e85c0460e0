import Utot.Labels.Canonical
import Utot.Labels.Modes
import Utot.Library.Components
import Utot.Uppaal.Declared
import Utot.Uppaal.Updates

/-!
# Uppaal's network of processes

The transition system of a model: every process, and every tuple of values of
its open parameters, is a component; the cells of variables and clocks are
shared.  Edges synchronise on channel cells, a broadcast takes along everyone
who can receive it, and no time passes in committed and urgent locations or
while a synchronisation on an urgent channel is possible.
-/

namespace Utot.Uppaal

open Utap Library

/-- A process and the values of its open parameters. -/
abbrev Owner : Type := Symbol × List Int

/-- The values of the cells that exist. -/
abbrev Store (V : Type) : Type := Cell → Option V

/-- What an edge does to a channel. -/
inductive Signal where
  | internal
  | emit (channel : Cell)
  | receive (channel : Cell)
  deriving DecidableEq, Repr

/-! ## Instances -/

section

variable (env : Env)

/-- The value is in the declared range of the symbol. -/
def InRange (p : Instance) (s : Symbol) (i : Int) : Prop :=
  ∃ range, IndexRange env (some p) (env.getType s) range ∧ range.1 ≤ i ∧ i ≤ range.2

/-- The values of the open parameters are in their ranges. -/
def ValuesOf (p : Instance) (values : List Int) : Prop :=
  List.Forall₂ (InRange env p) (openParameters p) values

/-- Each select variable has a value in the range it has behind those in front of it. -/
inductive Chooses : List Symbol → Instance → Instance → Prop where
  | done {p : Instance} : Chooses [] p p
  | choose {s : Symbol} {rest : List Symbol} {p q : Instance} {i : Int} (inside : InRange env p s i)
      (later : Chooses rest (bindConstant p s i) q) : Chooses (s :: rest) p q

/-- The instances of the system. -/
structure Lives (tas : TimedAutomataSystem) (o : Owner) (p : Instance) : Prop where
  listed : p ∈ tas.processes
  uid : o.1 = p.uid
  values : ValuesOf env p o.2

/-! ## Data -/

/-- The cell a symbol is for an instance. -/
def cellAt (o : Owner) (c : Symbol) (indices : List Int) : Cell :=
  ⟨if env.hasParent c then some o else none, c, indices⟩

variable {V : Type}

/-- What an instance sees of the store. -/
def view (o : Owner) (S : Store V) : State V := fun c indices => S (cellAt env o c indices)

open Classical in
/-- The store in which an instance sees the state. -/
noncomputable def put (o : Owner) (S : Store V) (σ : State V) : Store V := fun cell =>
  if cell = cellAt env o cell.symbol cell.indices then σ cell.symbol cell.indices else S cell

open Classical in
/-- Time changes clocks. -/
noncomputable def pass {T : Type} (advance : T → V → V) (t : T) (S : Store V) : Store V := fun cell =>
  if Clocks (env.getType cell.symbol) then (S cell).map (advance t) else S cell

end

/-! ## Edges and locations -/

section

variable {V : Type} (A : Arithmetic V) (env : Env) (tas : TimedAutomataSystem)

/-- The value is defined and true. -/
def Holds (x : Option V) : Prop := ∃ v, x = some v ∧ A.isTrue v = true

/-- What the synchronisation of an edge does. -/
inductive Signals (o : Owner) (q : Instance) : Option Expr → Signal → Prop where
  | internal : Signals o q none .internal
  | emit {channel : Expr} {c : Symbol} {indices : List Int}
      (denotes : Denotes env (some q) channel c indices) :
      Signals o q (some (.sync .bang channel)) (.emit (cellAt env o c indices))
  | receive {channel : Expr} {c : Symbol} {indices : List Int}
      (denotes : Denotes env (some q) channel c indices) :
      Signals o q (some (.sync .que channel)) (.receive (cellAt env o c indices))

/-- An edge of an instance between two locations. -/
inductive EdgeOf (o : Owner) (source : Symbol) : Signal → Effect Symbol (Store V) → Prop where
  | edge {p q : Instance} {e : Edge} {target : Symbol} {signal : Signal} {f : State V → Option V}
      {F : State V → Option (State V)} (lives : Lives env tas o p) (member : e ∈ p.templ.edges)
      (chooses : Chooses env e.select (instanceWith p o.2) q) (src : e.src = some source)
      (dst : e.dst = some target) (signals : Signals env o q e.sync signal)
      (guard : Means A (some q) e.guard (.value f)) (update : Executes A env (some q) e.assign F) :
      EdgeOf o source signal
        ⟨fun S => Holds A (f (view env o S)), fun S => (F (view env o S)).map (put env o S), target⟩

/-- The invariant of a location of an instance holds. -/
def InvariantOf (o : Owner) (location : Symbol) (S : Store V) : Prop :=
  ∀ p s e f, Lives env tas o p → s ∈ p.templ.states → s.uid = location → s.invariant = some e →
    Means A (some (instanceWith p o.2)) e (.value f) → Holds A (f (view env o S))

/-- An instance is in a location with the prefix. -/
def Prefixed (k : PrefixKind) (o : Owner) (location : Symbol) : Prop :=
  ∃ p, Lives env tas o p ∧ (∃ s ∈ p.templ.states, s.uid = location) ∧
    (env.getType location).is (.pre k) = true

/-! ## Joint moves -/

/-- The channel was declared with the prefix `urgent`. -/
def declaredUrgent : Ty → Bool
  | .pre k t => k == .urgent || declaredUrgent t
  | .ref t => declaredUrgent t
  | .label _ t => declaredUrgent t
  | .range t _ _ => declaredUrgent t
  | .array sub _ => declaredUrgent sub
  | .prim _ => false
  | .record _ _ => false

/-- Who moves together: one instance alone, an emitter and one receiver, or an
emitter and all instances that can receive; the order among these is not fixed. -/
inductive Together (ready : Owner → Signal → Prop) : List (Owner × Signal) → Prop where
  | alone {o : Owner} : Together ready [(o, .internal)]
  | binary {o o' : Owner} {c : Cell} (plain : declaredBroadcast (env.getType c.symbol) = false)
      (others : o ≠ o') : Together ready [(o, .emit c), (o', .receive c)]
  | broadcast {o : Owner} {c : Cell} {receivers : List Owner}
      (mode : declaredBroadcast (env.getType c.symbol) = true)
      (all : ∀ o', o' ∈ receivers ↔ o' ≠ o ∧ ready o' (.receive c)) :
      Together ready ((o, .emit c) :: receivers.map fun o' => (o', .receive c))

/-- A synchronisation on an urgent channel is possible. -/
def Hurried (ready : Owner → Signal → Prop) : Prop :=
  ∃ who, Together env ready who ∧ (∀ a ∈ who, ready a.1 a.2) ∧ (who.map Prod.fst).Nodup ∧
    ∃ o c, (o, Signal.emit c) ∈ who ∧ declaredUrgent (env.getType c.symbol) = true

/-- The network of a model; `advance` lets time pass for a clock. -/
noncomputable def network {T : Type} (advance : T → V → V) : Network Owner Symbol Signal (Store V) T where
  edge := EdgeOf A env tas
  invariant := InvariantOf A env tas
  committed := Prefixed env tas .committed
  urgent := Prefixed env tas .urgent
  together := Together env
  hurried := Hurried env
  elapse := pass env advance

end

/-! ## Views -/

section

variable {env : Env} {V : Type} {o o' : Owner}

theorem view_put (o : Owner) (S : Store V) (σ : State V) : view env o (put env o S σ) = σ := by
  funext c indices
  exact if_pos rfl

theorem put_view (o : Owner) (S : Store V) : put env o S (view env o S) = S := by
  funext cell
  unfold put view
  split
  · rename_i own
    rw [← own]
  · rfl

/-- What another instance sees of a change. -/
theorem view_put_other (other : o' ≠ o) (S : Store V) (σ : State V) (c : Symbol) (indices : List Int) :
    view env o' (put env o S σ) c indices =
      if env.hasParent c then view env o' S c indices else σ c indices := by
  unfold view put
  by_cases own : env.hasParent c = true
  · rw [if_pos own, if_neg]
    intro same
    have owners := congrArg Cell.owner same
    simp only [cellAt, own, if_true, Option.some.injEq] at owners
    exact other owners
  · rw [if_neg own, if_pos]
    · rfl
    · simp only [cellAt, own, Bool.false_eq_true, if_false]

theorem view_of_global {c : Symbol} (global : env.hasParent c = false) (S : Store V) (indices : List Int) :
    view env o' S c indices = view env o S c indices := by
  unfold view cellAt
  rw [global]
  rfl

/-- What any instance sees of a change that leaves a cell as it was. -/
theorem view_put_same {S : Store V} {σ : State V} {c : Symbol} {indices : List Int}
    (same : σ c indices = view env o S c indices) :
    view env o' (put env o S σ) c indices = view env o' S c indices := by
  by_cases other : o' = o
  · subst other
    rw [view_put, same]
  · rw [view_put_other other]
    split
    · rfl
    · rename_i noParent
      rw [same, view_of_global (Bool.eq_false_iff.mpr noParent)]

/-- A change that makes no cells makes none for any instance. -/
theorem exists_of_view_put {S : Store V} {σ : State V} {c : Symbol} {indices : List Int}
    (exists' : σ c indices ≠ none → view env o S c indices ≠ none)
    (some' : view env o' (put env o S σ) c indices ≠ none) : view env o' S c indices ≠ none := by
  by_cases other : o' = o
  · subst other
    rw [view_put] at some'
    exact exists' some'
  · rw [view_put_other other] at some'
    split at some'
    · exact some'
    · rename_i noParent
      rw [view_of_global (Bool.eq_false_iff.mpr noParent)]
      exact exists' some'

theorem view_pass_clock {T : Type} {c : Symbol} (clocks : Clocks (env.getType c)) (advance : T → V → V)
    (t : T) (S : Store V) (indices : List Int) :
    view env o (pass env advance t S) c indices = (view env o S c indices).map (advance t) :=
  if_pos clocks

theorem view_pass_other {T : Type} {c : Symbol} (other : ¬ Clocks (env.getType c)) (advance : T → V → V)
    (t : T) (S : Store V) (indices : List Int) :
    view env o (pass env advance t S) c indices = view env o S c indices :=
  if_neg other

end

end Utot.Uppaal
