import Utot.Meaning.Computable
import Utot.Run.Lines
import Utot.Uppaal.Declared

/-!
# Declarations give variables their ranges and initial values

The lines printed for the declaration of an integer variable, or of an array of
these, give each cell its declared range and the initial value it has in Uppaal.
The output paths differ in their defaults and in what they check, and the
exceptions are described by the type and the initialiser alone.
-/

namespace Utot

open Utap Uppaal Library Tchecker

/-! ## What the type checker promises -/

/-- The bounds of the ranges in a type. -/
def boundsOf : Ty → List Expr
  | .pre _ t => boundsOf t
  | .ref t => boundsOf t
  | .label _ t => boundsOf t
  | .range _ lower upper => [lower, upper]
  | .array sub size => boundsOf size ++ boundsOf sub
  | _ => []

/-- The bounds a declaration evaluates: those of the indices, and of the cells unless
they are constants, which take their bounds from their values. -/
def readBounds (t : Ty) : List Expr :=
  (dimensions t).flatMap boundsOf ++ if t.isConstant then [] else boundsOf (cellType t)

/-- The initialisers `checkInitialiser` returns for a type: a list with the type of
the array, or an expression of the type. -/
inductive InitialiserOf : Ty → Expr → Prop where
  | list {t t' sub : Ty} {es : List Expr} (typed : stripLabels t' = stripLabels t)
      (cells : t.getSub? = some sub) (entries : ∀ x ∈ es, InitialiserOf sub x) :
      InitialiserOf t (.nary .list es t')
  | other {t : Ty} {e : Expr} (array : e.type.isArray = t.isArray)
      (noList : ∀ es t', e ≠ .nary .list es t') : InitialiserOf t e

/-- Types of arrays whose indices have the same bounds. -/
def SameIndices (t t' : Ty) : Prop :=
  ∀ size size' lower upper lower' upper', t.getArraySize? = some size → t'.getArraySize? = some size' →
    size.getRange? = some (lower, upper) → size'.getRange? = some (lower', upper') →
    lower.equal lower' = true ∧ upper.equal upper' = true

/-- The promises about the declaration of a variable. -/
structure AcceptedDeclaration (env : Env) (p : Option Instance) (t : Ty) (init : Option Expr) : Prop where
  bounds : ∀ x ∈ boundsOf t, Computable env p x
  entries : ∀ e, init = some e → Computable env p e ∧ InitialiserOf t e
  /-- An array is initialised by an array with the same indices. -/
  named : ∀ s t' init', init = some (.identifier s t') → env.initialiser s = some init' →
    (Computable env p init' ∧ InitialiserOf (env.getType s) init') ∧
      (∀ x ∈ boundsOf (env.getType s), Computable env p x) ∧ SameIndices t (env.getType s)

/-- What the evaluator reads for the declaration is what Uppaal reads. -/
structure ReadRight (env : Env) (p : Option Instance) (t : Ty) (init : Option Expr) : Prop where
  bounds : ∀ x ∈ readBounds t, ReadRightly env p x
  entries : ∀ e ranges indices x, init = some e → IndexRanges env p t ranges →
    indices ∈ multiIndices ranges → Entry env ranges e indices x → ReadRightly env p x
  named : ∀ s t', init = some (.identifier s t') → ∀ x ∈ readBounds (env.getType s), ReadRightly env p x

/-! ## Where the output paths go astray -/

/-- An initialiser is read as a list with the wrong entries: it has more entries
than its dimension has indices, or it is an operator with operands. -/
inductive Misshapen (env : Env) (p : Option Instance) : Ty → Expr → Prop where
  | operator {t : Ty} {e : Expr} (array : t.isArray = true) (noList : ∀ es t', e ≠ .nary .list es t')
      (noName : ∀ s t', e ≠ .identifier s t') : Misshapen env p t e
  | long {t t' size : Ty} {es : List Expr} {min max : Int} (sized : t.getArraySize? = some size)
      (range : IndexRange env p size (min, max)) (more : max - min + 1 < es.length) :
      Misshapen env p t (.nary .list es t')
  | entry {t t' sub : Ty} {es : List Expr} {x : Expr} (cells : t.getSub? = some sub) (listed : x ∈ es)
      (inside : Misshapen env p sub x) : Misshapen env p t (.nary .list es t')
  | named {t t' : Ty} {s : Symbol} {init : Expr} (array : t.isArray = true)
      (given : env.initialiser s = some init) (inside : Misshapen env p t init) :
      Misshapen env p t (.identifier s t')

/-- None of the exceptions: an array of TChecker without initial value whose cells
have a range that ends in zero; an initialiser read as a list with the wrong
entries; a constant outside its range; equal entries without a value. -/
structure Regular (env : Env) (p : Option Instance) (t : Ty) (init : Option Expr) : Prop where
  zero : ∀ lo, looksOneDim t = true → init = none → DeclaredRange env p (cellType t) lo 0 → 0 ≤ lo
  shape : ∀ e, init = some e → ¬ Misshapen env p t e
  constants : ∀ e ranges indices x v lo hi, t.isConstant = true → init = some e →
    IndexRanges env p t ranges → indices ∈ multiIndices ranges → Entry env ranges e indices x →
    Evaluates env p x v → DeclaredRange env p (cellType t) lo hi → lo ≤ v ∧ v ≤ hi
  values : ∀ e ranges indices x, looksOneDim t = true → init = some e → IndexRanges env p t ranges →
    indices ∈ multiIndices ranges → Entry env ranges e indices x → ∃ v, Evaluates env p x v

/-! ## The right lines -/

/-- The lines that declare the cells of a variable: one line for each cell, row by
row, or one line that stands for all cells of an array of one dimension. -/
inductive CellsDeclared (env : Env) (p : Option Instance) (name : String) (t : Ty)
    (init : Option Expr) : List Line → Prop where
  | line {min max lo hi v : Int} (ranges : IndexRanges env p t [(min, max)])
      (shape : ∀ e, init = some e → Fits env [(min, max)] e)
      (cells : ∀ indices ∈ multiIndices [(min, max)], CellAt env p t [(min, max)] init indices lo hi v) :
      CellsDeclared env p name t init [.intvar lo hi v name (max - min + 1)]
  | cells {ranges : List (Int × Int)} {ls : List Line} (ranged : IndexRanges env p t ranges)
      (shape : ∀ e, init = some e → Fits env ranges e)
      (cells : List.Forall₂ (fun indices l => ∃ lo hi v,
        l = .intvar lo hi v (cellName name indices.reverse) 1 ∧
          CellAt env p t ranges init indices lo hi v) (multiIndices ranges) ls) :
      CellsDeclared env p name t init ls

section

variable {env : Env} {p : Option Instance} {t : Ty} {init : Option Expr}

/-! ## Types -/

theorem mem_boundsOf {lower upper : Expr} (ranged : t.getRange? = some (lower, upper)) :
    lower ∈ boundsOf t ∧ upper ∈ boundsOf t := by
  fun_induction boundsOf t with
  | case1 k t ih => exact ih ranged
  | case2 t ih => exact ih ranged
  | case3 name t ih => exact ih ranged
  | case4 base lower' upper' =>
      cases ranged
      exact ⟨.head _, .tail _ (.head _)⟩
  | case5 sub size => cases ranged
  | case6 t noPre noRef noLabel noRange noArray =>
      cases t with
      | prim k => cases ranged
      | record labels fields => cases ranged
      | pre k t => exact absurd rfl (noPre k t)
      | ref t => exact absurd rfl (noRef t)
      | label name t => exact absurd rfl (noLabel name t)
      | range t lower upper => exact absurd rfl (noRange t lower upper)
      | array sub size => exact absurd rfl (noArray sub size)

theorem indexRange_of_computeRangeBounds {size : Ty} {min max : Int}
    (known : ∀ x ∈ boundsOf size, Knowable env p x)
    (computed : computeRangeBounds env p size = .ok (min, max)) :
    IndexRange env p size (min, max) ∧ min ≤ max := by
  obtain ⟨lower, upper, ranged, first, second, nonempty⟩ := bounds_of_computeRangeBounds computed
  obtain ⟨least, greatest⟩ := mem_boundsOf ranged
  exact ⟨⟨lower, upper, ranged, (known lower least).evaluates first,
    (known upper greatest).evaluates second⟩, nonempty⟩

theorem indexRange_unique {size : Ty} {range range' : Int × Int} (first : IndexRange env p size range)
    (second : IndexRange env p size range') : range = range' := by
  obtain ⟨lower, upper, ranged, least, greatest⟩ := first
  obtain ⟨lower', upper', ranged', least', greatest'⟩ := second
  rw [ranged] at ranged'
  cases ranged'
  exact Prod.ext (least.unique least') (greatest.unique greatest')

theorem boundsOf_dimensions {size : Ty} (listed : size ∈ dimensions t) {x : Expr}
    (bound : x ∈ boundsOf size) : x ∈ boundsOf t := by
  fun_induction dimensions t with
  | case1 k t ih => exact ih listed
  | case2 t ih => exact ih listed
  | case3 name t ih => exact ih listed
  | case4 sub size' ih =>
      rw [boundsOf, List.mem_append]
      rcases List.mem_cons.mp listed with rfl | later
      · exact .inl bound
      · exact .inr (ih later)
  | case5 => cases listed

theorem indexRanges_unique {ranges ranges' : List (Int × Int)} (first : IndexRanges env p t ranges)
    (second : IndexRanges env p t ranges') : ranges = ranges' := by
  unfold IndexRanges at first second
  generalize dimensions t = sizes at first second
  induction first generalizing ranges' with
  | nil =>
      cases second
      rfl
  | cons range _ ih =>
      cases second with
      | cons range' later => rw [indexRange_unique range range', ih later]

/-! ## Bounds that are evaluated -/

theorem boundsOf_cellType (t : Ty) : ∀ x ∈ boundsOf (cellType t), x ∈ boundsOf t := by
  fun_induction cellType t with
  | case1 k t ih => exact ih
  | case2 t ih => exact ih
  | case3 name t ih => exact ih
  | case4 sub size ih => exact fun x listed => List.mem_append_right _ (ih x listed)
  | case5 t => exact fun x listed => listed

theorem mem_readBounds_size {size : Ty} (listed : size ∈ dimensions t) {x : Expr}
    (bound : x ∈ boundsOf size) : x ∈ readBounds t :=
  List.mem_append_left _ (List.mem_flatMap.mpr ⟨size, listed, bound⟩)

theorem mem_readBounds_cell (variable' : t.isConstant = false) {x : Expr}
    (bound : x ∈ boundsOf (cellType t)) : x ∈ readBounds t := by
  apply List.mem_append_right
  rw [variable']
  exact bound

theorem boundsOf_of_readBounds {x : Expr} (read : x ∈ readBounds t) : x ∈ boundsOf t := by
  rcases List.mem_append.mp read with index | cell
  · obtain ⟨size, listed, bound⟩ := List.mem_flatMap.mp index
    exact boundsOf_dimensions listed bound
  · split at cell
    · cases cell
    · exact boundsOf_cellType t x cell

/-- The bounds of a row are bounds of the array. -/
theorem mem_readBounds_row {sub size : Ty} {x : Expr} (read : x ∈ readBounds sub) :
    x ∈ readBounds (.array sub size) := by
  rcases List.mem_append.mp read with index | cell
  · apply List.mem_append_left
    obtain ⟨inner, listed, bound⟩ := List.mem_flatMap.mp index
    exact List.mem_flatMap.mpr ⟨inner, List.mem_cons_of_mem _ listed, bound⟩
  · exact List.mem_append_right _ cell

theorem dimensions_eq_nil {constant : Bool} (numeric : Numeric constant t)
    (single : t.isArray = false) : dimensions t = [] := by
  induction numeric with
  | const _ ih => exact ih single
  | label _ ih => exact ih single
  | array => cases single
  | _ => rfl

theorem isArray_of_getSub? : ∀ {t sub : Ty}, t.getSub? = some sub → t.isArray = true
  | .prim _, _, cells => by cases cells
  | .pre _ t, _, cells => by
      obtain ⟨inner, found, _⟩ := Option.map_eq_some_iff.mp cells
      exact isArray_of_getSub? (t := t) found
  | .ref t, _, cells => isArray_of_getSub? (t := t) cells
  | .label _ t, _, cells => isArray_of_getSub? (t := t) cells
  | .range t _ _, _, cells => by
      rw [Ty.getSub?] at cells
      split at cells
      · assumption
      · cases cells
  | .array _ _, _, _ => rfl
  | .record _ _, _, cells => by cases cells

/-! ## Shapes -/

/-- The outermost dimension of an array. -/
theorem dimensions_cons {constant : Bool} (numeric : Numeric constant t) (array : t.isArray = true) :
    ∃ sub size, t.getSub? = some sub ∧ t.getArraySize? = some size ∧
      dimensions t = size :: dimensions sub ∧ (∀ x ∈ boundsOf size, x ∈ boundsOf t) ∧
        (∀ x ∈ boundsOf sub, x ∈ boundsOf t) ∧ Numeric constant sub := by
  induction numeric with
  | bool => cases array
  | int => cases array
  | bounded => cases array
  | scalars => cases array
  | const _ ih =>
      obtain ⟨sub, size, cells, sized, dims, sizes, subs, inside⟩ := ih array
      refine ⟨.pre .constant sub, size, ?_, sized, dims, sizes, subs, .const inside⟩
      rw [Ty.getSub?, cells]
      rfl
  | label _ ih => exact ih array
  | @array constant sub size inside =>
      exact ⟨sub, size, rfl, rfl, rfl, fun x => List.mem_append_left _,
        fun x => List.mem_append_right _, inside⟩

theorem not_misshapen_of_fits {constant : Bool} {ranges : List (Int × Int)} {e : Expr}
    (numeric : Numeric constant t) (ranged : IndexRanges env p t ranges) (fits : Fits env ranges e) : ¬ Misshapen env p t e := by
  intro bad
  induction bad generalizing constant ranges with
  | operator array noList noName =>
      obtain ⟨sub, size, _, _, dims, _⟩ := dimensions_cons numeric array
      rw [IndexRanges, dims] at ranged
      cases ranged with
      | cons range later =>
          cases fits with
          | list => exact noList _ _ rfl
          | named => exact noName _ _ rfl
  | @long t t' size es min max sized range more =>
      obtain ⟨sub, size', _, sized', dims, sizes, _⟩ :=
        dimensions_cons numeric (isArray_of_getArraySize? sized)
      rw [sized] at sized'
      cases sized'
      rw [IndexRanges, dims] at ranged
      cases ranged with
      | cons range' later =>
          have same := indexRange_unique range range'
          subst same
          cases fits with
          | list length => omega
  | entry cells listed _ ih =>
      obtain ⟨sub, size, cells', _, dims, _, subs, inside⟩ :=
        dimensions_cons numeric (isArray_of_getSub? cells)
      rw [cells] at cells'
      cases cells'
      rw [IndexRanges, dims] at ranged
      cases ranged with
      | cons range later =>
          cases fits with
          | list _ entries => exact ih inside later (entries _ listed)
  | named array given _ ih =>
      obtain ⟨sub, size, _, _, dims, _⟩ := dimensions_cons numeric array
      have whole := ranged
      rw [IndexRanges, dims] at ranged
      cases ranged with
      | cons range later =>
          cases fits with
          | named given' inside =>
              rw [given] at given'
              cases given'
              exact ih numeric whole inside

/-! ## One cell -/

theorem numeric_stripLabels {constant : Bool} (numeric : Numeric constant t) :
    Numeric constant (stripLabels t) := by
  induction numeric with
  | label _ ih => exact ih
  | bool => exact .bool
  | int => exact .int
  | bounded => exact .bounded
  | scalars => exact .scalars
  | const inside => exact .const inside
  | array inside => exact .array inside

theorem stripLabels_transparent (t : Ty) :
    dimensions (stripLabels t) = dimensions t ∧ cellType (stripLabels t) = cellType t ∧
      (stripLabels t).isConstant = t.isConstant ∧ (stripLabels t).isArray = t.isArray := by
  fun_induction stripLabels t with
  | case1 name t ih => exact ih
  | case2 t => exact ⟨rfl, rfl, rfl, rfl⟩

/-- The declared range of a variable with bounds of its own. -/
theorem declared_of_variableBounds {constant : Bool} {lo hi : Int} (numeric : Numeric constant t)
    (known : ∀ x ∈ readBounds t, Knowable env p x)
    (bounds : variableBounds env p t = .ok (some (lo, hi))) :
    t.isConstant = false ∧ t.isArray = false ∧ DeclaredRange env p (cellType t) lo hi := by
  have ranged : ∀ (base : Ty) (lower upper : Expr), t = .range base lower upper →
      t.isConstant = false → computeRangeBounds env p t = .ok (lo, hi) →
        DeclaredRange env p (cellType t) lo hi := by
    rintro base lower upper rfl single computed
    obtain ⟨lower', upper', same, first, second, _⟩ := bounds_of_computeRangeBounds computed
    cases same
    have cells : ∀ x ∈ boundsOf (Ty.range base lower upper), Knowable env p x :=
      fun x bound => known x (mem_readBounds_cell single bound)
    exact .range ((cells lower (.head _)).evaluates first)
      ((cells upper (.tail _ (.head _))).evaluates second)
  cases numeric with
  | bool =>
      cases bounds
      exact ⟨rfl, rfl, .bool⟩
  | bounded =>
      obtain ⟨range, computed, same⟩ := Res.bind_eq_ok.mp bounds
      cases same
      exact ⟨rfl, rfl, ranged _ _ _ rfl rfl computed⟩
  | scalars =>
      obtain ⟨range, computed, same⟩ := Res.bind_eq_ok.mp bounds
      cases same
      exact ⟨rfl, rfl, ranged _ _ _ rfl rfl computed⟩
  | _ => cases bounds

theorem InitialiserOf.isArray {e : Expr} (accepted : InitialiserOf t e) :
    e.type.isArray = t.isArray := by
  cases accepted with
  | @list _ t' _ _ typed =>
      obtain ⟨_, _, _, first⟩ := stripLabels_transparent t'
      obtain ⟨_, _, _, second⟩ := stripLabels_transparent t
      rw [Expr.type, ← first, typed, second]
  | other array => exact array

/-- No array is an integer. -/
theorem not_is_prim_of_isArray {k : PrimKind} : ∀ {t : Ty}, t.isArray = true → t.is (.prim k) = false
  | .prim _, array => by cases array
  | .pre _ t, array => not_is_prim_of_isArray (t := t) array
  | .ref t, array => not_is_prim_of_isArray (t := t) array
  | .label _ t, array => not_is_prim_of_isArray (t := t) array
  | .range t _ _, array => not_is_prim_of_isArray (t := t) array
  | .array _ _, _ => rfl
  | .record _ _, array => by cases array

theorem not_array_of_eval {e : Expr} {v : Int} (evaluated : evalIntegerConstant env p e = .ok v) :
    e.type.isArray = false := by
  obtain ⟨depth, deep⟩ := depth_of_evalAux evaluated
  unfold evalIntegerConstant at evaluated
  rw [deep] at evaluated
  have typed := evalAux_typed evaluated
  cases array : e.type.isArray with
  | false => rfl
  | true =>
      rw [Ty.isInteger, Ty.isBoolean, Ty.isScalar, not_is_prim_of_isArray array,
        not_is_prim_of_isArray array, not_is_prim_of_isArray array] at typed
      cases typed

/-- A declaration, or a row of one, that is accepted, read right and regular. -/
structure Ready (env : Env) (p : Option Instance) (t : Ty) (init : Option Expr) : Prop where
  numeric : Numeric false t
  bounds : ∀ x ∈ readBounds t, Knowable env p x
  entries : ∀ e, init = some e → Computable env p e ∧ InitialiserOf t e
  right : ∀ e ranges indices x, init = some e → IndexRanges env p t ranges →
    indices ∈ multiIndices ranges → Entry env ranges e indices x → ReadRightly env p x
  shape : ∀ e, init = some e → ¬ Misshapen env p t e
  constants : ∀ e ranges indices x v lo hi, t.isConstant = true → init = some e →
    IndexRanges env p t ranges → indices ∈ multiIndices ranges → Entry env ranges e indices x →
    Evaluates env p x v → DeclaredRange env p (cellType t) lo hi → lo ≤ v ∧ v ≤ hi

theorem indexRanges_nil (single : dimensions t = []) : IndexRanges env p t [] := by
  rw [IndexRanges, single]
  exact .nil

/-- The initialiser of a single cell is known. -/
theorem Ready.known {e : Expr} (ready : Ready env p t (some e)) (single : dimensions t = []) : Knowable env p e :=
  ⟨(ready.entries e rfl).1,
    ready.right e [] [] e rfl (indexRanges_nil single) (List.mem_singleton_self _) .single⟩

/-- The line of a cell gives it its range and its initial value. -/
theorem cell_of_variableLine {lo hi v : Int} (ready : Ready env p t init)
    (printed : VariableLine env p t init lo hi v) :
    dimensions t = [] ∧ CellOfType env p t init lo hi v := by
  cases printed with
  | constant evaluated =>
      obtain ⟨_, accepted⟩ := ready.entries _ rfl
      have single := accepted.isArray.symm.trans (not_array_of_eval evaluated)
      have flat := dimensions_eq_nil ready.numeric single
      have value := (ready.known flat).evaluates evaluated
      refine ⟨flat, .constant rfl value fun lo hi ranged => ?_⟩
      exact ready.constants _ [] [] _ _ lo hi rfl rfl (indexRanges_nil flat)
        (List.mem_singleton_self _) .single value ranged
  | given bounds evaluated lower upper =>
      obtain ⟨variable', single, ranged⟩ := declared_of_variableBounds ready.numeric ready.bounds bounds
      have flat := dimensions_eq_nil ready.numeric single
      exact ⟨flat, .given variable' ranged ((ready.known flat).evaluates evaluated) lower upper⟩
  | default bounds nonempty =>
      obtain ⟨variable', single, ranged⟩ := declared_of_variableBounds ready.numeric ready.bounds bounds
      exact ⟨dimensions_eq_nil ready.numeric single, .default variable' ranged⟩

/-! ## Flattened arrays -/

theorem cellOfType_congr {t' : Ty} (cells : cellType t' = cellType t)
    (constants : t'.isConstant = t.isConstant) {lo hi v : Int}
    (cell : CellOfType env p t init lo hi v) : CellOfType env p t' init lo hi v := by
  cases cell with
  | constant constant value inside =>
      rw [← constants] at constant
      rw [← cells] at inside
      exact .constant constant value inside
  | given variable' ranged value lower upper =>
      rw [← constants] at variable'
      rw [← cells] at ranged
      exact .given variable' ranged value lower upper
  | default variable' ranged =>
      rw [← constants] at variable'
      rw [← cells] at ranged
      exact .default variable' ranged

theorem boundsOf_stripLabels (t : Ty) : boundsOf (stripLabels t) = boundsOf t := by
  fun_induction stripLabels t with
  | case1 name t ih => exact ih
  | case2 t => rfl

theorem readBounds_stripLabels (t : Ty) : readBounds (stripLabels t) = readBounds t := by
  obtain ⟨dims, cells, constants, _⟩ := stripLabels_transparent t
  rw [readBounds, dims, cells, constants]
  rfl

theorem getSub?_stripLabels (t : Ty) : (stripLabels t).getSub? = t.getSub? := by
  fun_induction stripLabels t with
  | case1 name t ih => exact ih
  | case2 t => rfl

theorem indexRanges_stripLabels {ranges : List (Int × Int)} :
    IndexRanges env p (stripLabels t) ranges ↔ IndexRanges env p t ranges := by
  rw [IndexRanges, IndexRanges, (stripLabels_transparent t).1]

theorem misshapen_congr {t' : Ty} {e : Expr} (array : t'.isArray = t.isArray)
    (sized : t'.getArraySize? = t.getArraySize?) (cells : t'.getSub? = t.getSub?)
    (bad : Misshapen env p t e) : Misshapen env p t' e := by
  induction bad with
  | operator array' noList noName => exact .operator (array.trans array') noList noName
  | long sized' range more => exact .long (sized.trans sized') range more
  | entry cells' listed inside => exact .entry (cells.trans cells') listed inside
  | named array' given _ ih => exact .named (array.trans array') given (ih array sized cells)

theorem misshapen_stripLabels {e : Expr} : Misshapen env p (stripLabels t) e ↔ Misshapen env p t e := by
  obtain ⟨_, _, _, array⟩ := stripLabels_transparent t
  constructor
  · exact misshapen_congr array.symm (getArraySize?_stripLabels t).symm (getSub?_stripLabels t).symm
  · exact misshapen_congr array (getArraySize?_stripLabels t) (getSub?_stripLabels t)

theorem InitialiserOf.stripped {e : Expr} (accepted : InitialiserOf t e) :
    InitialiserOf (stripLabels t) e := by
  cases accepted with
  | list typed cells entries =>
      exact .list (typed.trans (stripLabels_idem t).symm) ((getSub?_stripLabels t).trans cells) entries
  | other array noList => exact .other (array.trans (stripLabels_transparent t).2.2.2.symm) noList

namespace Ready

theorem stripped (ready : Ready env p t init) : Ready env p (stripLabels t) init := by
  obtain ⟨_, cellType_eq, constant_eq, _⟩ := stripLabels_transparent t
  refine ⟨numeric_stripLabels ready.numeric, ?_, ?_, ?_, ?_, ?_⟩
  · rw [readBounds_stripLabels]
    exact ready.bounds
  · intro e given
    obtain ⟨computable, accepted⟩ := ready.entries e given
    exact ⟨computable, accepted.stripped⟩
  · intro e ranges indices x given ranged listed entry
    exact ready.right e ranges indices x given (indexRanges_stripLabels.mp ranged) listed entry
  · intro e given bad
    exact ready.shape e given (misshapen_stripLabels.mp bad)
  · intro e ranges indices x v lo hi constant given ranged listed entry value declared
    rw [constant_eq] at constant
    rw [cellType_eq] at declared
    exact ready.constants e ranges indices x v lo hi constant given (indexRanges_stripLabels.mp ranged)
      listed entry value declared

/-- The initialiser of an array is a list, or the name of an array. -/
theorem list_or_name {sub size : Ty} {e : Expr} (ready : Ready env p (.array sub size) (some e)) :
    (∃ es t', e = .nary .list es t') ∨ ∃ s t', e = .identifier s t' := by
  by_contra neither
  rw [not_or] at neither
  exact ready.shape e rfl (.operator rfl (fun es t' same => neither.1 ⟨es, t', same⟩)
    fun s t' same => neither.2 ⟨s, t', same⟩)

theorem row_default {sub size : Ty} (ready : Ready env p (.array sub size) none) :
    Ready env p sub none where
  numeric := by
    cases ready.numeric with
    | array inside => exact inside
  bounds x listed := ready.bounds x (mem_readBounds_row listed)
  entries e given := by cases given
  right e ranges indices x given := by cases given
  shape e given := by cases given
  constants e ranges indices x v lo hi _ given := by cases given

theorem row {sub size t' : Ty} {es : List Expr} {x : Expr} {min max i : Int}
    (ready : Ready env p (.array sub size) (some (.nary .list es t')))
    (range : IndexRange env p size (min, max)) (lower : min ≤ i) (upper : i ≤ max)
    (found : es[(i - min).toNat]? = some x) : Ready env p sub (some x) where
  numeric := by
    cases ready.numeric with
    | array inside => exact inside
  bounds x listed := ready.bounds x (mem_readBounds_row listed)
  entries y given := by
    cases given
    obtain ⟨computable, accepted⟩ := ready.entries _ rfl
    have listed := List.mem_of_getElem? found
    refine ⟨computable.entry listed, ?_⟩
    cases accepted with
    | list _ cells entries =>
        cases cells
        exact entries x listed
    | other _ noList => exact absurd rfl (noList _ _)
  right y ranges indices z given ranged listed entry := by
    cases given
    exact ready.right _ ((min, max) :: ranges) (i :: indices) z rfl (.cons range ranged)
      (mem_multiIndices_cons.mpr ⟨i, indices, rfl, ⟨lower, upper⟩, listed⟩) (.list found entry)
  shape y given bad := by
    cases given
    exact ready.shape _ rfl (.entry rfl (List.mem_of_getElem? found) bad)
  constants y ranges indices z v lo hi constant given ranged listed entry value declared := by
    cases given
    exact ready.constants _ ((min, max) :: ranges) (i :: indices) z v lo hi constant rfl
      (.cons range ranged) (mem_multiIndices_cons.mpr ⟨i, indices, rfl, ⟨lower, upper⟩, listed⟩)
      (.list found entry) value declared

end Ready

/-- The lines of the cells of one row, under the indices in front of it. -/
def CellsPrinted (env : Env) (p : Option Instance) (name : String) (t : Ty) (init : Option Expr)
    (S : List Int) (ranges : List (Int × Int)) (ls : List Line) : Prop :=
  List.Forall₂ (fun indices l => ∃ lo hi v,
    l = .intvar lo hi v (cellName name (indices.reverse ++ S)) 1 ∧
      CellAt env p t ranges init indices lo hi v) (multiIndices ranges) ls

/-- The line of a single cell. -/
theorem single_of_cellLine {name : String} {S : List Int} {ls : List Line} (ready : Ready env p t init)
    (printed : CellLine env p (cellName name S) t init ls) :
    IndexRanges env p t [] ∧ CellsPrinted env p name t init S [] ls := by
  have integer : ∀ lo hi v, VariableLine env p (stripLabels t) init lo hi v →
      IndexRanges env p t [] ∧
        CellsPrinted env p name t init S [] [.intvar lo hi v (cellName name S) 1] := by
    intro lo hi v line
    obtain ⟨flat, cell⟩ := cell_of_variableLine ready.stripped line
    rw [(stripLabels_transparent t).1] at flat
    have cell := cellOfType_congr (stripLabels_transparent t).2.1.symm
      (stripLabels_transparent t).2.2.1.symm cell
    refine ⟨indexRanges_nil flat, .cons ⟨lo, hi, v, rfl, ?_⟩ .nil⟩
    cases init with
    | none => exact .default cell
    | some e => exact .given .single cell
  cases printed with
  | channel kind =>
      cases ready.numeric <;> rcases kind with kind | kind | kind <;> cases kind
  | clock kind => cases ready.numeric <;> cases kind
  | integer line => exact integer _ _ _ line

theorem initialCell_eq_ok {e : Expr} {k : Int} {cell : Option Expr}
    (found : initialCell (some e) k = .ok cell) : ∃ x, e.subs[k.toNat]? = some x ∧ cell = some x := by
  obtain ⟨x, inside, same⟩ := Res.bind_eq_ok.mp found
  cases same
  exact ⟨x, orAssert_eq_ok.mp inside, rfl⟩

/-- The rows of an array without initialiser. -/
theorem rows_default {sub size : Ty} {min max : Int} {ranges : List (Int × Int)} {name : String}
    {S : List Int} {blocks : List (List Line)}
    (rows : List.Forall₂ (fun i => CellsPrinted env p name sub none (i :: S) ranges)
      (intRange min max) blocks) :
    CellsPrinted env p name (.array sub size) none S ((min, max) :: ranges) blocks.flatten := by
  refine forall₂_flatten (rows.imp fun i block cells => ?_)
  rw [List.forall₂_map_left_iff]
  refine cells.imp fun indices l line => ?_
  obtain ⟨lo, hi, v, rfl, cell⟩ := line
  refine ⟨lo, hi, v, ?_, ?_⟩
  · rw [List.reverse_cons, List.append_assoc, List.singleton_append]
  · cases cell with
    | default cell =>
        cases cell with
        | default variable' ranged => exact .default (.default variable' ranged)

theorem cellOfType_row {sub size : Ty} {e : Expr} {lo hi v : Int}
    (cell : CellOfType env p sub (some e) lo hi v) : CellOfType env p (.array sub size) (some e) lo hi v := by
  cases cell with
  | constant constant value inside => exact .constant constant value inside
  | given variable' ranged value lower upper => exact .given variable' ranged value lower upper

/-- The rows of an array with a list of entries. -/
theorem rows_given {sub size t' : Ty} {es : List Expr} {min max : Int} {ranges : List (Int × Int)}
    {name : String} {S : List Int} {blocks : List (List Line)}
    (rows : List.Forall₂ (fun i block => ∃ x, es[(i - min).toNat]? = some x ∧
      CellsPrinted env p name sub (some x) (i :: S) ranges block) (intRange min max) blocks) :
    CellsPrinted env p name (.array sub size) (some (.nary .list es t')) S ((min, max) :: ranges)
      blocks.flatten := by
  refine forall₂_flatten (rows.imp fun i block row => ?_)
  obtain ⟨x, found, cells⟩ := row
  rw [List.forall₂_map_left_iff]
  refine cells.imp fun indices l line => ?_
  obtain ⟨lo, hi, v, rfl, cell⟩ := line
  refine ⟨lo, hi, v, ?_, ?_⟩
  · rw [List.reverse_cons, List.append_assoc, List.singleton_append]
  · cases cell with
    | given entry cell => exact .given (.list found entry) (cellOfType_row cell)

/-- The lines of a flattened array, or of a part of one. -/
theorem cells_of_cellLines {constant : Bool} (numeric : Numeric constant t) {name : String}
    {S : List Int} {ls : List Line} (ready : Ready env p t init)
    (printed : CellLines env p name t init S ls) :
    ∃ ranges, IndexRanges env p t ranges ∧ (∀ e, init = some e → Fits env ranges e) ∧
      CellsPrinted env p name t init S ranges ls := by
  induction numeric generalizing init S ls with
  | @array constant sub size _ ih =>
      obtain ⟨min, max, blocks, computed, enough, rows, rfl⟩ := printed
      have known : ∀ x ∈ boundsOf size, Knowable env p x :=
        fun x listed => ready.bounds x (mem_readBounds_size List.mem_cons_self listed)
      obtain ⟨range, nonempty⟩ := indexRange_of_computeRangeBounds known computed
      have first : min ∈ intRange min max := mem_intRange.mpr ⟨le_refl _, nonempty⟩
      cases init with
      | none =>
          have ready' := ready.row_default
          obtain ⟨block, _, cell, found, lines⟩ := exists_of_forall₂ rows first
          cases found
          obtain ⟨ranges, ranged, _, _⟩ := ih ready' lines
          refine ⟨(min, max) :: ranges, .cons range ranged, fun _ given => (by cases given), ?_⟩
          refine rows_default (rows.imp fun i block row => ?_)
          obtain ⟨cell, found, lines⟩ := row
          cases found
          obtain ⟨ranges', ranged', _, cells⟩ := ih ready' lines
          rw [indexRanges_unique ranged ranged']
          exact cells
      | some e =>
          have rowOf : ∀ i block, (∃ cell, initialCell (some e) (i - min) = .ok cell ∧
              CellLines env p name sub cell (i :: S) block) → ∃ x, e.subs[(i - min).toNat]? = some x ∧
                CellLines env p name sub (some x) (i :: S) block := by
            intro i block row
            obtain ⟨cell, found, lines⟩ := row
            obtain ⟨x, entry, rfl⟩ := initialCell_eq_ok found
            exact ⟨x, entry, lines⟩
          obtain ⟨block, _, row⟩ := exists_of_forall₂ rows first
          obtain ⟨x, found, lines⟩ := rowOf min block row
          rcases ready.list_or_name with ⟨es, t', rfl⟩ | ⟨s, t', rfl⟩
          · obtain ⟨ranges, ranged, _, _⟩ := ih (ready.row range (le_refl _) nonempty found) lines
            have each : ∀ i block, i ∈ intRange min max ∧ (∃ cell,
                initialCell (some (.nary .list es t')) (i - min) = .ok cell ∧
                  CellLines env p name sub cell (i :: S) block) →
                ∃ x, es[(i - min).toNat]? = some x ∧ Fits env ranges x ∧
                  CellsPrinted env p name sub (some x) (i :: S) ranges block := by
              rintro i block ⟨listed, row⟩
              obtain ⟨lower, upper⟩ := mem_intRange.mp listed
              obtain ⟨x, found, lines⟩ := rowOf i block row
              obtain ⟨ranges', ranged', fits, cells⟩ := ih (ready.row range lower upper found) lines
              have same := indexRanges_unique ranged ranged'
              subst same
              exact ⟨x, found, fits x rfl, cells⟩
            have rows' := ((List.forall₂_and_left _ _).mpr ⟨fun i listed => listed, rows⟩).imp each
            refine ⟨(min, max) :: ranges, .cons range ranged, ?_, ?_⟩
            · intro e given
              cases given
              have size := enough _ rfl
              have length : (es.length : Int) = max - min + 1 := by
                apply le_antisymm
                · exact Int.not_lt.mp fun more => ready.shape _ rfl (.long rfl range more)
                · exact size
              refine .list length fun x listed => ?_
              obtain ⟨k, bound, rfl⟩ := List.getElem_of_mem listed
              obtain ⟨_, _, x, found, fits, _⟩ :=
                exists_of_forall₂ rows' (mem_intRange.mpr ⟨(by omega : min ≤ min + k), by omega⟩)
              have offset : (min + (k : Int) - min).toNat = k := by omega
              rw [offset, List.getElem?_eq_getElem bound] at found
              cases found
              exact fits
            · exact rows_given (rows'.imp fun i block row => by
                obtain ⟨x, found, _, cells⟩ := row
                exact ⟨x, found, cells⟩)
          · cases found
  | _ =>
      obtain ⟨ranged, cells⟩ := single_of_cellLine ready printed
      exact ⟨[], ranged, fun _ _ => .single, cells⟩

/-! ## Arrays of TChecker -/

/-- What `is_one_dim_array_type` and `are_all_equals_in_list` have found. -/
theorem oneDimDeclaration_facts {sub size cell : Ty} {min max : Int} {val : Option Expr}
    (whole : oneDimDeclaration env p (.array sub size) init = .ok (some (min, max, cell, val))) :
    computeRangeBounds env p size = .ok (min, max) ∧ sub.isArray = false ∧
      cell = stripRefsAndLabels sub ∧ isCellKind cell.kind = true ∧
        areAllEqualsInList env p init = .ok (true, val) := by
  obtain ⟨⟨minsz, maxsz, basetype⟩, type, whole⟩ := Res.bind_eq_ok.mp whole
  obtain ⟨_, _, type⟩ := Res.bind_eq_ok.mp type
  obtain ⟨size', sized, type⟩ := Res.bind_eq_ok.mp type
  cases orAssert_eq_ok.mp sized
  obtain ⟨bounds, ranged, type⟩ := Res.bind_eq_ok.mp type
  obtain ⟨elem, first, type⟩ := Res.bind_eq_ok.mp type
  cases orAssert_eq_ok.mp first
  dsimp only at type whole
  cases array : sub.isArray with
  | true =>
      rw [if_pos array] at type
      cases type
      cases whole
  | false =>
      rw [if_neg (Bool.eq_false_iff.mp array)] at type
      cases kind : isCellKind (stripRefsAndLabels sub).kind with
      | false =>
          rw [kind] at type
          cases type
          cases whole
      | true =>
          rw [kind] at type
          cases type
          obtain ⟨⟨equal, initval⟩, compared, whole⟩ := Res.bind_eq_ok.mp whole
          cases equal with
          | false => cases whole
          | true =>
              cases whole
              exact ⟨ranged, rfl, rfl, kind, compared⟩

/-- The list whose entries are all equal, and its first entry. -/
theorem areAllEqualsInList_facts {e : Expr} {val : Option Expr}
    (compared : areAllEqualsInList env p (some e) = .ok (true, val)) :
    ∃ list size m M x rest, namedInitialiser env e = .ok list ∧
      list.type.getArraySize? = some size ∧ computeRangeBounds env p size = .ok (m, M) ∧
        (list.subs.length : Int) = M - m + 1 ∧ list.subs = x :: rest ∧ val = some x ∧
          rest.all x.equal = true := by
  obtain ⟨_, _, compared⟩ := Res.bind_eq_ok.mp compared
  obtain ⟨list, named, compared⟩ := Res.bind_eq_ok.mp compared
  obtain ⟨size, sized, compared⟩ := Res.bind_eq_ok.mp compared
  obtain ⟨⟨m, M⟩, bounds, compared⟩ := Res.bind_eq_ok.mp compared
  obtain ⟨count, counted, compared⟩ := Res.bind_eq_ok.mp compared
  rw [checkedInt_eq_ok counted] at compared
  split at compared
  · cases compared
  · rename_i length
    obtain ⟨x, head, compared⟩ := Res.bind_eq_ok.mp compared
    have head := orAssert_eq_ok.mp head
    cases subs : list.subs with
    | nil =>
        rw [subs] at head
        cases head
    | cons first rest =>
        rw [Expr.getSize, ne_eq, not_not] at length
        rw [subs] at head compared
        cases head
        have answer := Except.ok.inj compared
        exact ⟨list, size, m, M, x, rest, named, orAssert_eq_ok.mp sized, bounds,
          length, subs, (congrArg Prod.snd answer).symm, congrArg Prod.fst answer⟩

/-- The cells of an array of TChecker are Booleans or have a range. -/
theorem cell_of_isCellKind {constant : Bool} (numeric : Numeric constant t) (variable' : constant = false)
    (kind : isCellKind (stripRefsAndLabels t).kind = true) :
    t.isConstant = false ∧ cellType t = stripRefsAndLabels t ∧
      (stripRefsAndLabels t = .prim .bool ∨ ∃ base lower upper,
        stripRefsAndLabels t = .range (.prim base) lower upper ∧ base ≠ .bool) := by
  induction numeric with
  | bool => exact ⟨rfl, rfl, .inl rfl⟩
  | int => cases variable'
  | bounded => exact ⟨rfl, rfl, .inr ⟨_, _, _, rfl, PrimKind.noConfusion⟩⟩
  | scalars => exact ⟨rfl, rfl, .inr ⟨_, _, _, rfl, PrimKind.noConfusion⟩⟩
  | const => cases kind
  | label _ ih => exact ih variable' kind
  | array => cases kind

theorem declared_of_elementBounds {lo hi : Int} (numeric : Numeric false t)
    (known : ∀ x ∈ readBounds t, Knowable env p x)
    (kind : isCellKind (stripRefsAndLabels t).kind = true)
    (bounds : elementBounds env p (stripRefsAndLabels t) = .ok (lo, hi)) :
    t.isConstant = false ∧ DeclaredRange env p (cellType t) lo hi := by
  obtain ⟨variable', type, cell⟩ := cell_of_isCellKind numeric rfl kind
  refine ⟨variable', ?_⟩
  have known : ∀ x ∈ boundsOf (stripRefsAndLabels t), Knowable env p x := by
    rw [← type]
    exact fun x bound => known x (mem_readBounds_cell variable' bound)
  rw [type]
  rcases cell with same | ⟨base, lower, upper, same, noBool⟩
  · rw [same] at bounds ⊢
    cases bounds
    exact .bool
  · rw [same] at bounds known ⊢
    have noBoolean : (Ty.range (.prim base) lower upper).isBoolean = false := by
      cases base <;> first | rfl | exact absurd rfl noBool
    rw [elementBounds, noBoolean] at bounds
    obtain ⟨range, found, bounds⟩ := Res.bind_eq_ok.mp bounds
    cases orAssert_eq_ok.mp found
    obtain ⟨least, first, bounds⟩ := Res.bind_eq_ok.mp bounds
    obtain ⟨greatest, second, bounds⟩ := Res.bind_eq_ok.mp bounds
    cases bounds
    exact .range ((known lower (.head _)).evaluates first)
      ((known upper (.tail _ (.head _))).evaluates second)

/-- A list of an accepted initialiser has the type of the array. -/
theorem InitialiserOf.typed {es : List Expr} {t' : Ty} (accepted : InitialiserOf t (.nary .list es t')) :
    stripLabels t' = stripLabels t := by
  cases accepted with
  | list typed => exact typed
  | other _ noList => exact absurd rfl (noList es t')

theorem initialiser_of_named {s : Symbol} {t' : Ty} {list : Expr}
    (named : namedInitialiser env (.identifier s t') = .ok list) : env.initialiser s = some list := by
  cases data : env.getData s with
  | none =>
      rw [namedInitialiser, data] at named
      cases named
  | some var =>
      rw [Env.initialiser, data, Option.bind_some]
      rw [namedInitialiser, data] at named
      dsimp only at named
      split at named
      · cases named
      · rename_i init given
        cases named
        exact given

theorem mem_dimensions_of_size : ∀ {t size : Ty}, t.getArraySize? = some size → size ∈ dimensions t
  | .prim _, _, sized => by cases sized
  | .pre _ t, _, sized => mem_dimensions_of_size (t := t) sized
  | .ref t, _, sized => mem_dimensions_of_size (t := t) sized
  | .label _ t, _, sized => mem_dimensions_of_size (t := t) sized
  | .range _ _ _, _, sized => by cases sized
  | .array _ _, _, sized => by
      cases sized
      exact List.mem_cons_self
  | .record _ _, _, sized => by cases sized

/-- The entries an array of TChecker is initialised from: those of a list that fits,
given in place or by the name of an array. -/
theorem entries_of_equal {sub size : Ty} {e : Expr} {val : Option Expr} {min max : Int}
    (ready : Ready env p (.array sub size) (some e)) (accepted : AcceptedDeclaration env p (.array sub size) (some e))
    (reads : ReadRight env p (.array sub size) (some e)) (range : IndexRange env p size (min, max))
    (compared : areAllEqualsInList env p (some e) = .ok (true, val)) :
    ∃ (x : Expr) (es : List Expr), val = some x ∧ x ∈ es ∧ (∀ y ∈ es, x.equal y = true) ∧ Fits env [(min, max)] e ∧
      (∀ y ∈ es, Computable env p y) ∧ Entry env [(min, max)] e [min] x ∧
      ∀ i, min ≤ i → i ≤ max → ∃ y ∈ es, Entry env [(min, max)] e [i] y := by
  obtain ⟨list, lsize, m, M, x, rest, named, sized, bounds, length, subs, rfl, equal⟩ :=
    areAllEqualsInList_facts compared
  have same : ∀ y ∈ x :: rest, x.equal y = true := by
    intro y listed
    rcases List.mem_cons.mp listed with rfl | later
    · exact equal_refl y
    · exact List.all_eq_true.mp equal y later
  obtain ⟨computable, inPlace⟩ := ready.entries e rfl
  -- What follows from the length for a list of entries.
  have finish : ∀ t', (list = .nary .list (x :: rest) t') → M - m = max - min →
      Fits env [(min, max)] list ∧ Entry env [(min, max)] list [min] x ∧ ∀ i, min ≤ i → i ≤ max →
        ∃ y ∈ x :: rest, Entry env [(min, max)] list [i] y := by
    rintro t' rfl total
    have count : ((x :: rest).length : Int) = max - min + 1 := by
      rw [← total]
      exact length
    have start : (x :: rest)[(min - min).toNat]? = some x := by rw [Int.sub_self]; rfl
    refine ⟨.list count fun _ _ => .single, .list start .single, fun i lower upper => ?_⟩
    have bound : (i - min).toNat < (x :: rest).length := by omega
    exact ⟨_, List.getElem_mem bound, .list (List.getElem?_eq_getElem bound) .single⟩
  have known : ∀ y ∈ boundsOf size, Knowable env p y :=
    fun y listed => ready.bounds y (mem_readBounds_size List.mem_cons_self listed)
  rcases ready.list_or_name with ⟨es, t', rfl⟩ | ⟨s, t', rfl⟩
  · cases named
    have type := getArraySize?_of_typed inPlace.typed
    rw [show (Expr.nary NaryKind.list es t').type = t' from rfl, type] at sized
    cases sized
    cases subs
    have ranges := indexRange_unique (indexRange_of_computeRangeBounds known bounds).1 range
    cases ranges
    obtain ⟨fits, entry⟩ := finish t' rfl rfl
    exact ⟨x, x :: rest, rfl, List.mem_cons_self, same, fits, fun y listed => computable.entry listed, entry⟩
  · have given := initialiser_of_named named
    obtain ⟨⟨inside, accepted'⟩, computable', indices⟩ := accepted.named s t' list rfl given
    have bad : ¬ Misshapen env p (.array sub size) list :=
      fun bad => ready.shape _ rfl (.named rfl given bad)
    cases isList : list with
    | nary k es t'' =>
        rw [isList] at subs
        cases k with
        | list =>
            cases subs
            rw [isList] at accepted'
            rw [isList, Expr.type, getArraySize?_of_typed accepted'.typed] at sized
            obtain ⟨lower', upper', ranged', first, second, _⟩ := bounds_of_computeRangeBounds bounds
            obtain ⟨lower, upper, ranged, least, greatest⟩ := range
            obtain ⟨lowers, uppers⟩ := indices _ _ _ _ _ _ rfl sized ranged ranged'
            obtain ⟨inLower, inUpper⟩ := mem_boundsOf ranged
            obtain ⟨inLower', inUpper'⟩ := mem_boundsOf ranged'
            have known' : ∀ y ∈ boundsOf _, Knowable env p y := fun y listed =>
              ⟨computable' y (boundsOf_dimensions (mem_dimensions_of_size sized) listed),
                reads.named s t' rfl y (mem_readBounds_size (mem_dimensions_of_size sized) listed)⟩
            have start : min = m := same_value lowers (known lower inLower).parsed
              (known' _ inLower').parsed least ((known' _ inLower').evaluates first)
            have stop : max = M := same_value uppers (known upper inUpper).parsed
              (known' _ inUpper').parsed greatest ((known' _ inUpper').evaluates second)
            obtain ⟨fits, first, entry⟩ := finish t'' isList (by rw [start, stop])
            rw [isList] at fits first entry inside given
            refine ⟨x, x :: rest, rfl, List.mem_cons_self, same, .named given fits,
              fun y listed => inside.entry listed, .named given first, fun i lower upper => ?_⟩
            obtain ⟨y, listed, found⟩ := entry i lower upper
            exact ⟨y, listed, .named given found⟩
        | _ =>
            refine absurd (.operator rfl (fun _ _ same => ?_) fun _ _ same => ?_) bad
            all_goals
              rw [isList] at same
              cases same
    | identifier s' t'' =>
        rw [isList] at subs
        cases subs
    | _ =>
        refine absurd (.operator rfl (fun _ _ same => ?_) fun _ _ same => ?_) bad
        all_goals
          rw [isList] at same
          cases same

/-- The default of an array of TChecker is that of Uppaal, where the range does not
end in zero. -/
theorem default_eq {lo hi : Int} (zero : hi = 0 → 0 ≤ lo) :
    (if 0 ≤ lo ∨ hi ≤ 0 then lo else 0) = if lo ≤ 0 ∧ 0 ≤ hi then 0 else lo := by
  split <;> split <;> omega

/-- The line of an array of TChecker. -/
theorem line_of_oneDim {sub size cell : Ty} {val : Option Expr} {min max lo hi v : Int} {name : String}
    (ready : Ready env p (.array sub size) init) (accepted : AcceptedDeclaration env p (.array sub size) init)
    (reads : ReadRight env p (.array sub size) init) (regular : Regular env p (.array sub size) init)
    (whole : oneDimDeclaration env p (.array sub size) init = .ok (some (min, max, cell, val)))
    (printed : ArrayLine env p cell val lo hi v) :
    CellsDeclared env p name (.array sub size) init [.intvar lo hi v name (max - min + 1)] := by
  obtain ⟨_, answer, _⟩ := oneDimDeclaration_eq_ok whole
  have looks := (Bool.and_eq_true_iff.mp answer.symm).1
  obtain ⟨computed, single, rfl, kind, compared⟩ := oneDimDeclaration_facts whole
  have knownSize : ∀ x ∈ boundsOf size, Knowable env p x :=
    fun x listed => ready.bounds x (mem_readBounds_size List.mem_cons_self listed)
  have knownSub : ∀ x ∈ readBounds sub, Knowable env p x :=
    fun x listed => ready.bounds x (mem_readBounds_row listed)
  have numeric : Numeric false sub := by
    cases ready.numeric with
    | array inside => exact inside
  have flat := dimensions_eq_nil numeric single
  obtain ⟨range, nonempty⟩ := indexRange_of_computeRangeBounds knownSize computed
  have ranges : IndexRanges env p (.array sub size) [(min, max)] := by
    rw [IndexRanges, dimensions, flat]
    exact .cons range .nil
  cases init with
  | none =>
      cases compared
      cases printed with
      | default bounds nonempty =>
          obtain ⟨variable', declared⟩ := declared_of_elementBounds numeric knownSub kind bounds
          have zero : hi = 0 → 0 ≤ lo := by
            rintro rfl
            exact regular.zero lo looks rfl declared
          rw [default_eq zero]
          exact .line ranges (fun _ given => by cases given) fun _ _ => .default (.default variable' declared)
  | some e =>
      obtain ⟨x, es, rfl, inEntries, equal, fits, computable, start, entry⟩ :=
        entries_of_equal ready accepted reads range compared
      cases printed with
      | given bounds evaluated lower upper =>
          obtain ⟨variable', declared⟩ := declared_of_elementBounds numeric knownSub kind bounds
          refine .line ranges (fun _ given => by cases given; exact fits) fun indices listed => ?_
          obtain ⟨i, rest, rfl, ⟨least, greatest⟩, later⟩ := mem_multiIndices_cons.mp listed
          cases List.mem_singleton.mp later
          obtain ⟨y, inside, found⟩ := entry i least greatest
          obtain ⟨w, value⟩ := regular.values e _ _ y looks rfl ranges listed found
          have known : Knowable env p x := ⟨computable x inEntries, ready.right e _ [min] x rfl ranges
            (mem_multiIndices_cons.mpr ⟨min, [], rfl, ⟨le_refl _, nonempty⟩, .head _⟩) start⟩
          have same := same_value (equal y inside) known.parsed (computable y inside).parsed
            (known.evaluates evaluated) value
          rw [← same] at value
          exact .given found (.given variable' declared value lower upper)

/-! ## Types under names -/

theorem looksOneDim_stripLabels (t : Ty) : looksOneDim (stripLabels t) = looksOneDim t := by
  fun_induction stripLabels t with
  | case1 name t ih => exact ih
  | case2 t => rfl

/-- Every description of a declaration looks through the names of types. -/
theorem regular_stripLabels : Regular env p (stripLabels t) init ↔ Regular env p t init := by
  obtain ⟨_, cellType_eq, constant_eq, _⟩ := stripLabels_transparent t
  constructor
  · rintro ⟨zero, shape, constants, values⟩
    simp only [looksOneDim_stripLabels, cellType_eq, constant_eq, indexRanges_stripLabels,
      misshapen_stripLabels] at zero shape constants values
    exact ⟨zero, shape, constants, values⟩
  · rintro ⟨zero, shape, constants, values⟩
    refine ⟨?_, ?_, ?_, ?_⟩
    all_goals simp only [looksOneDim_stripLabels, cellType_eq, constant_eq, indexRanges_stripLabels,
      misshapen_stripLabels]
    · exact zero
    · exact shape
    · exact constants
    · exact values

theorem cellAt_congr {t' : Ty} (cells : cellType t' = cellType t)
    (constants : t'.isConstant = t.isConstant) {ranges : List (Int × Int)} {indices : List Int}
    {lo hi v : Int} (cell : CellAt env p t ranges init indices lo hi v) :
    CellAt env p t' ranges init indices lo hi v := by
  cases cell with
  | given entry cell => exact .given entry (cellOfType_congr cells constants cell)
  | default cell => exact .default (cellOfType_congr cells constants cell)

theorem cellsDeclared_congr {t' : Ty} (dims : dimensions t' = dimensions t)
    (cells : cellType t' = cellType t) (constants : t'.isConstant = t.isConstant) {name : String}
    {ls : List Line} (declared : CellsDeclared env p name t init ls) :
    CellsDeclared env p name t' init ls := by
  have indices : ∀ ranges, IndexRanges env p t ranges → IndexRanges env p t' ranges := by
    intro ranges ranged
    rw [IndexRanges, dims]
    exact ranged
  cases declared with
  | line ranges shape printed =>
      exact .line (indices _ ranges) shape fun is listed => cellAt_congr cells constants (printed is listed)
  | cells ranges shape printed =>
      refine .cells (indices _ ranges) shape (printed.imp fun is l line => ?_)
      obtain ⟨lo, hi, v, same, cell⟩ := line
      exact ⟨lo, hi, v, same, cellAt_congr cells constants cell⟩

theorem cellsDeclared_stripLabels {name : String} {ls : List Line} :
    CellsDeclared env p name (stripLabels t) init ls ↔ CellsDeclared env p name t init ls := by
  obtain ⟨dims, cells, constants, _⟩ := stripLabels_transparent t
  constructor
  · exact cellsDeclared_congr dims.symm cells.symm constants.symm
  · exact cellsDeclared_congr dims cells constants

theorem AcceptedDeclaration.stripped (accepted : AcceptedDeclaration env p t init) :
    AcceptedDeclaration env p (stripLabels t) init where
  bounds := by
    rw [boundsOf_stripLabels]
    exact accepted.bounds
  entries e given := ⟨(accepted.entries e given).1, (accepted.entries e given).2.stripped⟩
  named s t' init' name given := by
    obtain ⟨inside, computable, indices⟩ := accepted.named s t' init' name given
    refine ⟨inside, computable, fun size size' lower upper lower' upper' sized => ?_⟩
    rw [getArraySize?_stripLabels] at sized
    exact indices size size' lower upper lower' upper' sized

theorem ReadRight.stripped (reads : ReadRight env p t init) : ReadRight env p (stripLabels t) init where
  bounds := by
    rw [readBounds_stripLabels]
    exact reads.bounds
  entries e ranges indices x given ranged listed entry :=
    reads.entries e ranges indices x given (indexRanges_stripLabels.mp ranged) listed entry
  named := reads.named

theorem noClock_of_numeric {constant : Bool} (numeric : Numeric constant t) :
    t.stripArray.isClock = false := by
  induction numeric with
  | const _ ih => exact ih
  | label _ ih => exact ih
  | array _ ih => exact ih
  | _ => rfl

/-! ## Exactly the regular declarations -/

/-- A regular declaration gives every cell its range and its initial value. -/
theorem cellsDeclared_of_regular {name : String} {ls : List Line} (numeric : Numeric false t)
    (accepted : AcceptedDeclaration env p t init) (reads : ReadRight env p t init) (regular : Regular env p t init)
    (printed : DeclarationLines env p name (stripLabels t) init ls) :
    CellsDeclared env p name t init ls := by
  have ready : Ready env p t init :=
    ⟨numeric, fun x read => ⟨accepted.bounds x (boundsOf_of_readBounds read), reads.bounds x read⟩,
      accepted.entries, reads.entries, regular.shape, regular.constants⟩
  have ready := ready.stripped
  have accepted := accepted.stripped
  have reads := reads.stripped
  have regular := regular_stripLabels.mpr regular
  apply cellsDeclared_stripLabels.mp
  generalize stripLabels t = u at ready accepted reads regular printed
  cases printed with
  | @integer lo hi v kind line =>
      obtain ⟨flat, cell⟩ := cell_of_variableLine ready line
      refine .cells (indexRanges_nil flat) (fun _ _ => .single) (.cons ⟨lo, hi, v, rfl, ?_⟩ .nil)
      cases init with
      | none => exact .default cell
      | some e => exact .given .single cell
  | channel kind => cases ready.numeric <;> rcases kind with kind | kind | kind <;> cases kind
  | clock kind => cases ready.numeric <;> cases kind
  | array kind lines =>
      cases lines with
      | clocks _ isClock =>
          rw [noClock_of_numeric ready.numeric] at isClock
          cases isClock
      | integers whole _ printed =>
          cases u with
          | array sub size => exact line_of_oneDim ready accepted reads regular whole printed
          | _ => cases kind
      | cells _ cells =>
          obtain ⟨ranges, ranged, fits, cells⟩ := cells_of_cellLines ready.numeric ready cells
          refine .cells ranged fits (cells.imp fun indices l printed => ?_)
          rw [List.append_nil] at printed
          exact printed

/-- What right lines say about each cell. -/
theorem cells_of_cellsDeclared {name : String} {ls : List Line}
    (declared : CellsDeclared env p name t init ls) :
    ∃ ranges, IndexRanges env p t ranges ∧ (∀ e, init = some e → Fits env ranges e) ∧
      ∀ indices ∈ multiIndices ranges, ∃ lo hi v id size, .intvar lo hi v id size ∈ ls ∧
        CellAt env p t ranges init indices lo hi v := by
  cases declared with
  | line ranges shape cells =>
      exact ⟨_, ranges, shape, fun indices listed =>
        ⟨_, _, _, _, _, List.mem_singleton_self _, cells indices listed⟩⟩
  | cells ranges shape cells =>
      refine ⟨_, ranges, shape, fun indices listed => ?_⟩
      obtain ⟨l, inside, lo, hi, v, rfl, cell⟩ := exists_of_forall₂ cells listed
      exact ⟨lo, hi, v, _, _, inside, cell⟩

theorem declaredRange_unique {lo hi lo' hi' : Int} (first : DeclaredRange env p t lo hi)
    (second : DeclaredRange env p t lo' hi') : lo = lo' ∧ hi = hi' := by
  cases first with
  | bool =>
      cases second
      exact ⟨rfl, rfl⟩
  | range least greatest =>
      cases second with
      | range least' greatest' => exact ⟨least.unique least', greatest.unique greatest'⟩

/-- Where the cells of an array of TChecker have a range that ends in zero, the
printed default is the lower bound. -/
theorem zero_of_cellsDeclared {name : String} {ls : List Line} (numeric : Numeric false t)
    (known : ∀ x ∈ readBounds t, Knowable env p x) (looks : looksOneDim t = true) {lo : Int}
    (range : DeclaredRange env p (cellType t) lo 0)
    (printed : DeclarationLines env p name t none ls) (declared : CellsDeclared env p name t none ls) :
    0 ≤ lo := by
  have array : t.isArray = true := (Bool.and_eq_true_iff.mp looks).1
  cases printed with
  | integer kind line =>
      cases line with
      | default bounds =>
          obtain ⟨_, single, _⟩ := declared_of_variableBounds numeric known bounds
          rw [single] at array
          cases array
  | channel kind => cases numeric <;> rcases kind with kind | kind | kind <;> cases kind
  | clock kind => cases numeric <;> cases kind
  | array kind lines =>
      cases lines with
      | clocks _ isClock =>
          rw [noClock_of_numeric numeric] at isClock
          cases isClock
      | cells split _ =>
          obtain ⟨_, answer, _⟩ := oneDimDeclaration_eq_ok split
          rw [looks] at answer
          cases answer
      | @integers min max _ _ _ _ _ whole _ line =>
          cases numeric with
          | @array _ sub size numeric =>
              obtain ⟨computed, single, rfl, cellKind, compared⟩ := oneDimDeclaration_facts whole
              cases compared
              cases line with
              | default bounds nonempty =>
                  obtain ⟨_, declaredSub⟩ := declared_of_elementBounds numeric
                    (fun x listed => known x (mem_readBounds_row listed)) cellKind bounds
                  obtain ⟨rfl, rfl⟩ := declaredRange_unique range declaredSub
                  obtain ⟨ranges, ranged, _, cells⟩ := cells_of_cellsDeclared declared
                  obtain ⟨index, proper⟩ := indexRange_of_computeRangeBounds
                    (fun x listed => known x (mem_readBounds_size List.mem_cons_self listed)) computed
                  have flat := dimensions_eq_nil numeric single
                  rw [IndexRanges, dimensions, flat] at ranged
                  cases ranged with
                  | cons first later =>
                      cases later
                      have same := indexRange_unique index first
                      subst same
                      obtain ⟨lo', hi', v, id, count, inside, cell⟩ := cells [min]
                        (mem_multiIndices_cons.mpr ⟨min, [], rfl, ⟨le_refl _, proper⟩, .head _⟩)
                      have printed := List.mem_singleton.mp inside
                      cases cell with
                      | default cell =>
                          cases cell with
                          | default =>
                              obtain ⟨rfl, rfl, value, _⟩ := Line.intvar.inj printed
                              rw [if_pos (Or.inr (le_refl _))] at value
                              split at value <;> omega
          | _ => cases kind

/-- Lines that give every cell its range and its initial value come from regular
declarations. -/
theorem regular_of_cellsDeclared {name : String} {ls : List Line} (numeric : Numeric false t)
    (accepted : AcceptedDeclaration env p t init) (reads : ReadRight env p t init)
    (printed : DeclarationLines env p name (stripLabels t) init ls) (declared : CellsDeclared env p name t init ls) : Regular env p t init where
  zero lo looks plain range := by
    subst plain
    rw [← looksOneDim_stripLabels] at looks
    rw [← (stripLabels_transparent t).2.1] at range
    refine zero_of_cellsDeclared (numeric_stripLabels numeric) ?_ looks range printed
      (cellsDeclared_stripLabels.mpr declared)
    rw [readBounds_stripLabels]
    exact fun x read => ⟨accepted.bounds x (boundsOf_of_readBounds read), reads.bounds x read⟩
  shape e given := by
    obtain ⟨ranges, ranged, shape, _⟩ := cells_of_cellsDeclared declared
    exact not_misshapen_of_fits numeric ranged (shape e given)
  constants e ranges indices x v lo hi constant given ranged listed entry value range := by
    subst given
    obtain ⟨ranges', ranged', _, cells⟩ := cells_of_cellsDeclared declared
    cases indexRanges_unique ranged ranged'
    obtain ⟨_, _, w, _, _, _, cell⟩ := cells indices listed
    cases cell with
    | given entry' cell =>
        cases entry.unique entry'
        cases cell with
        | constant _ value' inside =>
            rw [value.unique value']
            exact inside lo hi range
        | given variable' =>
            rw [constant] at variable'
            cases variable'
  values e ranges indices x _ given ranged listed entry := by
    subst given
    obtain ⟨ranges', ranged', _, cells⟩ := cells_of_cellsDeclared declared
    cases indexRanges_unique ranged ranged'
    obtain ⟨_, _, w, _, _, _, cell⟩ := cells indices listed
    cases cell with
    | given entry' cell =>
        cases entry.unique entry'
        cases cell with
        | constant _ value => exact ⟨_, value⟩
        | given _ _ value => exact ⟨_, value⟩

end

end Utot
