import Mathlib.Data.List.Pairwise
import Utot.Run.Instances
import Utot.Utap.Substitution

/-!
# Levels of instantiation

A template that is instantiated in several steps leaves one flat map with the
bindings of all steps.  What it binds is found by following the map, or by
substituting one level after the other.
-/

namespace Utot

open Utap

/-! ## Levels -/

/-- The parameters of one level, and what they are bound to. -/
abbrev Level := List (Symbol × Expr)

/-- The level as a substitution. -/
def Level.bindings (level : Level) : Bindings := fun s => level.lookup s

/-- The arguments are put in for the parameters, one level after the other. -/
def substLevels (levels : List Level) (e : Expr) : Expr :=
  levels.foldl (fun e level => e.subst level.bindings) e

/-- All levels as one substitution. -/
def solution : List Level → Bindings
  | [] => fun _ => none
  | level :: rest => level.bindings.andThen (solution rest)

theorem substLevels_eq (levels : List Level) (e : Expr) :
    substLevels levels e = e.subst (solution levels) := by
  induction levels generalizing e with
  | nil => exact e.subst_none.symm
  | cons level rest ih =>
      change substLevels rest (e.subst level.bindings) = _
      rw [ih, Expr.subst_subst]
      rfl

/-- No argument of the second level mentions a parameter of the first one. -/
def ApartFrom (first second : Level) : Prop :=
  ∀ binding ∈ second, ∀ x ∈ binding.2.symbols, first.lookup x = none

/-- The arguments mention parameters of later levels only. -/
structure Layered (levels : List Level) : Prop where
  later : levels.Pairwise ApartFrom
  own : ∀ level ∈ levels, ApartFrom level level

section

variable {level : Level} {rest levels : List Level} {s : Symbol} {argument : Expr}

theorem Layered.tail (layered : Layered (level :: rest)) : Layered rest where
  later := (List.pairwise_cons.mp layered.later).2
  own other listed := layered.own other (List.mem_cons_of_mem _ listed)

theorem Layered.first (layered : Layered (level :: rest)) :
    ∀ other ∈ level :: rest, ApartFrom level other := by
  intro other listed
  rcases List.mem_cons.mp listed with rfl | listed
  · exact layered.own other List.mem_cons_self
  · exact (List.pairwise_cons.mp layered.later).1 other listed

theorem layered_append (layered : Layered levels) (own : ApartFrom level level)
    (later : ∀ other ∈ levels, ApartFrom other level) : Layered (levels ++ [level]) where
  later := by
    rw [List.pairwise_append]
    refine ⟨layered.later, List.pairwise_singleton _ _, fun other listed last inside => ?_⟩
    rw [List.mem_singleton.mp inside]
    exact later other listed
  own other listed := by
    rcases List.mem_append.mp listed with listed | listed
    · exact layered.own other listed
    · rw [List.mem_singleton.mp listed]
      exact own

/-- The first bindings change nothing in the arguments. -/
theorem subst_solution_cons (layered : Layered (level :: rest)) {other : Level}
    (listed : other ∈ level :: rest) (bound : (s, argument) ∈ other) :
    argument.subst (solution (level :: rest)) = argument.subst (solution rest) := by
  refine argument.subst_congr fun x inside => ?_
  have free : level.bindings x = none := layered.first other listed _ bound x inside
  rw [solution, Bindings.andThen, free]

theorem mem_of_lookup {bindings : List (Symbol × Expr)} (found : bindings.lookup s = some argument) :
    (s, argument) ∈ bindings := by
  obtain ⟨front, back, rfl, _⟩ := List.lookup_eq_some_iff.mp found
  exact List.mem_append_right _ List.mem_cons_self

/-- Following the flat map is substituting level by level. -/
theorem solution_eq (layered : Layered levels) (s : Symbol) :
    solution levels s = (levels.flatten.lookup s).map fun argument =>
      argument.subst (solution levels) := by
  induction levels with
  | nil => rfl
  | cons level rest ih =>
      rw [List.flatten_cons, List.lookup_append]
      cases found : level.lookup s with
      | some argument =>
          have same := subst_solution_cons layered List.mem_cons_self (mem_of_lookup found)
          have first : level.bindings s = some argument := found
          rw [Option.some_or, Option.map_some, same, solution, Bindings.andThen, first]
      | none =>
          have first : level.bindings s = none := found
          have step : solution (level :: rest) s = solution rest s := by
            rw [solution, Bindings.andThen, first]
          rw [Option.none_or, step, ih layered.tail]
          cases behind : rest.flatten.lookup s with
          | none => rfl
          | some argument =>
              obtain ⟨other, listed, bound⟩ := List.mem_flatten.mp (mem_of_lookup behind)
              have same := subst_solution_cons layered (List.mem_cons_of_mem _ listed) bound
              rw [Option.map_some, Option.map_some, same]

/-! ## The order of the levels -/

/-- The number of levels from the one of the parameter on. -/
def height : List Level → Symbol → Nat
  | [], _ => 0
  | level :: rest, s => if (level.lookup s).isSome then rest.length + 1 else height rest s

theorem height_le (levels : List Level) (s : Symbol) : height levels s ≤ levels.length := by
  induction levels with
  | nil => exact Nat.le_refl _
  | cons level rest ih =>
      rw [height, List.length_cons]
      split
      · exact Nat.le_refl _
      · exact Nat.le_succ_of_le ih

theorem height_cons_of_none (free : level.lookup s = none) :
    height (level :: rest) s = height rest s := by
  rw [height, free]
  rfl

/-- An argument is of later levels than its parameter. -/
theorem height_lt (layered : Layered levels) (bound : levels.flatten.lookup s = some argument)
    {x : Symbol} (inside : x ∈ argument.symbols) : height levels x < height levels s := by
  induction levels with
  | nil => cases bound
  | cons level rest ih =>
      rw [List.flatten_cons, List.lookup_append] at bound
      cases found : level.lookup s with
      | some first =>
          rw [found, Option.some_or] at bound
          cases bound
          have free := layered.first level List.mem_cons_self _ (mem_of_lookup found) x inside
          rw [height_cons_of_none free, height, found]
          exact Nat.lt_succ_of_le (height_le rest x)
      | none =>
          rw [found, Option.none_or] at bound
          obtain ⟨other, listed, there⟩ := List.mem_flatten.mp (mem_of_lookup bound)
          have free := layered.first other (List.mem_cons_of_mem _ listed) _ there x inside
          rw [height_cons_of_none free, height_cons_of_none found]
          exact ih layered.tail bound

theorem height_pos (bound : levels.flatten.lookup s = some argument) : 0 < height levels s := by
  induction levels with
  | nil => cases bound
  | cons level rest ih =>
      rw [List.flatten_cons, List.lookup_append] at bound
      cases found : level.lookup s with
      | some first =>
          rw [height, found]
          exact Nat.succ_pos _
      | none =>
          rw [found, Option.none_or] at bound
          rw [height_cons_of_none found]
          exact ih bound

/-! ## What is left -/

theorem solution_eq_none (layered : Layered levels) (free : solution levels s = none) :
    levels.flatten.lookup s = none := by
  rw [solution_eq layered, Option.map_eq_none_iff] at free
  exact free

/-- No parameter is left in what a parameter is replaced by, by induction on its level. -/
theorem solution_free (layered : Layered levels) {n : Nat} :
    ∀ {s : Symbol} {argument : Expr}, height levels s ≤ n → solution levels s = some argument →
      ∀ x ∈ argument.symbols, levels.flatten.lookup x = none := by
  induction n with
  | zero =>
      intro s argument low bound
      rw [solution_eq layered] at bound
      obtain ⟨before, found, _⟩ := Option.map_eq_some_iff.mp bound
      have positive := height_pos found
      omega
  | succ n ih =>
      intro s argument low bound x inside
      rw [solution_eq layered] at bound
      obtain ⟨before, found, rfl⟩ := Option.map_eq_some_iff.mp bound
      rcases before.left_of_mem inside with ⟨_, free⟩ | ⟨s', listed, argument, bound', there⟩
      · exact solution_eq_none layered free
      · have lower := height_lt layered found listed
        exact ih (by omega) bound' x there

/-- No parameter is left in an expression the levels have been substituted in. -/
theorem substLevels_free (layered : Layered levels) (e : Expr) :
    ∀ x ∈ (substLevels levels e).symbols, levels.flatten.lookup x = none := by
  intro x inside
  rw [substLevels_eq] at inside
  rcases e.left_of_mem inside with ⟨_, free⟩ | ⟨s, _, argument, bound, there⟩
  · exact solution_eq_none layered free
  · exact solution_free layered (Nat.le_refl _) bound x there

end

end Utot
