import Utot.Library.Products
import Utot.Translate.Declarations
import Utot.Uppaal.Values

/-!
# What a declaration gives a variable

The cells of a declared variable, the range of each of them and its initial
value, read off the type and the initialiser.  Nothing here is taken from the
translator.
-/

namespace Utot.Uppaal

open Utap Library

/-! ## Types -/

/-- Types of integers, Booleans and scalars, of constants of these, and of arrays
of any number of dimensions; integers without a range exist only as constants. -/
inductive Numeric : Bool → Ty → Prop where
  | bool {constant : Bool} : Numeric constant (.prim .bool)
  | int : Numeric true (.prim .int)
  | bounded {constant : Bool} {lower upper : Expr} : Numeric constant (.range (.prim .int) lower upper)
  | scalars {constant : Bool} {lower upper : Expr} :
      Numeric constant (.range (.prim .scalar) lower upper)
  | const {constant : Bool} {t : Ty} (inside : Numeric true t) : Numeric constant (.pre .constant t)
  | label {constant : Bool} {name : String} {t : Ty} (inside : Numeric constant t) :
      Numeric constant (.label name t)
  | array {constant : Bool} {sub size : Ty} (inside : Numeric constant sub) :
      Numeric constant (.array sub size)

/-- Types of clocks and of arrays of clocks. -/
inductive Clocks : Ty → Prop where
  | clock : Clocks (.prim .clock)
  | label {name : String} {t : Ty} (inside : Clocks t) : Clocks (.label name t)
  | array {sub size : Ty} (inside : Clocks sub) : Clocks (.array sub size)

/-- The index types of the dimensions of an array. -/
def dimensions : Ty → List Ty
  | .pre _ t => dimensions t
  | .ref t => dimensions t
  | .label _ t => dimensions t
  | .array sub size => size :: dimensions sub
  | _ => []

/-- The type of the cells. -/
def cellType : Ty → Ty
  | .pre _ t => cellType t
  | .ref t => cellType t
  | .label _ t => cellType t
  | .array sub _ => cellType sub
  | t => t

/-! ## Cells -/

section

variable (env : Env) (p : Option Instance)

/-- The least and the greatest index of a dimension. -/
def IndexRange (size : Ty) (range : Int × Int) : Prop :=
  ∃ lower upper, size.getRange? = some (lower, upper) ∧ Evaluates env p lower range.1 ∧
    Evaluates env p upper range.2

/-- The ranges of the indices of a variable, one for each dimension. -/
def IndexRanges (t : Ty) (ranges : List (Int × Int)) : Prop :=
  List.Forall₂ (IndexRange env p) (dimensions t) ranges

/-- The multi-indices of the cells in row-major order. -/
def multiIndices (ranges : List (Int × Int)) : List (List Int) :=
  tuples (fun range (_ : Unit) => intRange range.1 range.2) (fun u _ _ => u) ranges ()

/-- The declared range of a cell; a constant `int` has none. -/
inductive DeclaredRange : Ty → Int → Int → Prop where
  | bool : DeclaredRange (.prim .bool) 0 1
  | range {base : Ty} {lower upper : Expr} {lo hi : Int} (least : Evaluates env p lower lo)
      (greatest : Evaluates env p upper hi) : DeclaredRange (.range base lower upper) lo hi

/-- The entry of an initialiser for a cell: lists are read row by row, and the
name of an array stands for the initialiser of that array. -/
inductive Entry : List (Int × Int) → Expr → List Int → Expr → Prop where
  | single {e : Expr} : Entry [] e [] e
  | list {min max i : Int} {ranges : List (Int × Int)} {es : List Expr} {t : Ty} {x y : Expr}
      {indices : List Int} (found : es[(i - min).toNat]? = some x) (inside : Entry ranges x indices y) :
      Entry ((min, max) :: ranges) (.nary .list es t) (i :: indices) y
  | named {range : Int × Int} {ranges : List (Int × Int)} {s : Symbol} {t : Ty} {init y : Expr}
      {i : Int} {indices : List Int} (given : env.initialiser s = some init)
      (inside : Entry (range :: ranges) init (i :: indices) y) :
      Entry (range :: ranges) (.identifier s t) (i :: indices) y

/-- An initialiser has the shape of the array: every list has one entry for each
index of its dimension. -/
inductive Fits : List (Int × Int) → Expr → Prop where
  | single {e : Expr} : Fits [] e
  | list {min max : Int} {ranges : List (Int × Int)} {es : List Expr} {t : Ty}
      (length : (es.length : Int) = max - min + 1) (entries : ∀ x ∈ es, Fits ranges x) :
      Fits ((min, max) :: ranges) (.nary .list es t)
  | named {range : Int × Int} {ranges : List (Int × Int)} {s : Symbol} {t : Ty} {init : Expr}
      (given : env.initialiser s = some init) (inside : Fits (range :: ranges) init) :
      Fits (range :: ranges) (.identifier s t)

/-- The bounds and the initial value of a cell: of a constant, of a variable with
an initial value, and of one without. -/
inductive CellOfType (t : Ty) : Option Expr → Int → Int → Int → Prop where
  | constant {e : Expr} {v : Int} (constant : t.isConstant = true) (value : Evaluates env p e v)
      (inside : ∀ lo hi, DeclaredRange env p (cellType t) lo hi → lo ≤ v ∧ v ≤ hi) :
      CellOfType t (some e) v v v
  | given {e : Expr} {lo hi v : Int} (variable' : t.isConstant = false)
      (ranged : DeclaredRange env p (cellType t) lo hi) (value : Evaluates env p e v) (lower : lo ≤ v)
      (upper : v ≤ hi) : CellOfType t (some e) lo hi v
  | default {lo hi : Int} (variable' : t.isConstant = false)
      (ranged : DeclaredRange env p (cellType t) lo hi) :
      CellOfType t none lo hi (if lo ≤ 0 ∧ 0 ≤ hi then 0 else lo)

/-- The bounds and the initial value of the cell with the given indices. -/
inductive CellAt (t : Ty) (ranges : List (Int × Int)) :
    Option Expr → List Int → Int → Int → Int → Prop where
  | given {e x : Expr} {indices : List Int} {lo hi v : Int} (entry : Entry env ranges e indices x)
      (cell : CellOfType env p t (some x) lo hi v) : CellAt t ranges (some e) indices lo hi v
  | default {indices : List Int} {lo hi v : Int} (cell : CellOfType env p t none lo hi v) :
      CellAt t ranges none indices lo hi v

end

/-- The multi-indices are in lexicographic order, each once. -/
theorem pairwise_multiIndices (ranges : List (Int × Int)) :
    (multiIndices ranges).Pairwise (List.Lex (· < ·)) := by
  apply pairwise_tuples
  intro range _
  exact pairwise_intRange range.1 range.2

theorem multiIndices_cons (range : Int × Int) (ranges : List (Int × Int)) :
    multiIndices (range :: ranges) =
      (intRange range.1 range.2).flatMap fun i => (multiIndices ranges).map (i :: ·) := rfl

/-- A multi-index has one index in the range of each dimension. -/
theorem mem_multiIndices_cons {range : Int × Int} {ranges : List (Int × Int)} {indices : List Int} :
    indices ∈ multiIndices (range :: ranges) ↔
      ∃ i rest, indices = i :: rest ∧ (range.1 ≤ i ∧ i ≤ range.2) ∧ rest ∈ multiIndices ranges := by
  rw [multiIndices_cons, List.mem_flatMap]
  constructor
  · rintro ⟨i, listed, inside⟩
    obtain ⟨rest, later, rfl⟩ := List.mem_map.mp inside
    exact ⟨i, rest, rfl, mem_intRange.mp listed, later⟩
  · rintro ⟨i, rest, rfl, listed, later⟩
    exact ⟨i, mem_intRange.mpr listed, List.mem_map_of_mem later⟩

/-- There is one entry for a cell. -/
theorem Entry.unique {env : Env} {ranges : List (Int × Int)} {e x y : Expr} {indices : List Int}
    (first : Entry env ranges e indices x) (second : Entry env ranges e indices y) : x = y := by
  induction first with
  | single =>
      cases second
      rfl
  | list found _ ih =>
      cases second with
      | list found' inside =>
          rw [found] at found'
          cases found'
          exact ih inside
  | named given _ ih =>
      cases second with
      | named given' inside =>
          rw [given] at given'
          cases given'
          exact ih inside

end Utot.Uppaal
