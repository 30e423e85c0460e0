import Utot.Meaning.Operands
import Utot.Meaning.Rejections
import Utot.Names.Cells

/-!
# Guards and invariants

A state of the model is carried over to the printed names, and what
`translate_expression` prints has one reading, with the value of the expression; what
it does not print it rejects.
-/

namespace Utot

open Utap Uppaal Library Tchecker

section

variable {env : Env} {p : Option Instance} {ctx : ContextPrefix} {scope : List Symbol} {e : Expr}

/-! ## Names and states -/

/-- `_` does not confuse the names of two variables. -/
def VariablesApart (env : Env) (ctx : ContextPrefix) (scope : List Symbol) : Prop :=
  ∀ c ∈ scope, ∀ c' ∈ scope, c ≠ c' →
    Unconfused '_' (symbolName env ctx c).toList (symbolName env ctx c').toList

theorem VariablesApart.cell_eq (apart : VariablesApart env ctx scope) {c c' : Symbol} {indices indices' : List Int}
    (inside : c ∈ scope) (inside' : c' ∈ scope)
    (same : cellName (symbolName env ctx c) indices.reverse =
      cellName (symbolName env ctx c') indices'.reverse) : c = c' ∧ indices = indices' := by
  have texts := congrArg String.toList same
  rw [toList_cellName, toList_cellName] at texts
  by_cases symbols : c = c'
  · subst symbols
    refine ⟨rfl, ?_⟩
    exact joined_injective underscore_not_mem_intText intText_injective
      (List.append_cancel_left texts)
  · exact absurd texts ((apart c inside c' inside' symbols).append_ne (isTail_joined _)
      (isTail_joined _))

theorem VariablesApart.name_eq (apart : VariablesApart env ctx scope) {c c' : Symbol} (inside : c ∈ scope)
    (inside' : c' ∈ scope) (same : symbolName env ctx c = symbolName env ctx c') : c = c' := by
  have cells : cellName (symbolName env ctx c) ([] : List Int).reverse =
      cellName (symbolName env ctx c') ([] : List Int).reverse := same
  exact (apart.cell_eq inside inside' cells).1

/-- The cell of a split variable has the name. -/
def CellOf (env : Env) (ctx : ContextPrefix) (scope : List Symbol) (id : String)
    (cell : Symbol × List Int) : Prop :=
  cell.1 ∈ scope ∧ oneDim env cell.1 = false ∧ id = cellName (symbolName env ctx cell.1) cell.2.reverse

/-- The cell of a TChecker array has the name and the index. -/
def ElementOf (env : Env) (p : Option Instance) (ctx : ContextPrefix) (scope : List Symbol)
    (id : String) (index : Int) (cell : Symbol × Int) : Prop :=
  cell.1 ∈ scope ∧ oneDim env cell.1 = true ∧ id = symbolName env ctx cell.1 ∧
    ∃ min max, indexBounds env p (env.getType cell.1) = .ok (min, max) ∧ index = cell.2 - min

open Classical in
/-- The state, carried over to the printed names. -/
noncomputable def carry {V : Type} (env : Env) (p : Option Instance) (ctx : ContextPrefix)
    (scope : List Symbol) (σ : State V) : Valuation V where
  scalar id :=
    if named : ∃ cell, CellOf env ctx scope id cell then
      σ (choose named).1 (choose named).2
    else none
  cell id index :=
    if named : ∃ cell, ElementOf env p ctx scope id index cell then
      σ (choose named).1 [(choose named).2]
    else none

/-- A name stands for one cell only, so every state can be carried over. -/
theorem carries_carry {V : Type} (apart : VariablesApart env ctx scope) (σ : State V) :
    Carries env p ctx scope σ (carry env p ctx scope σ) := by
  constructor
  · intro c inside split indices
    have named : ∃ cell, CellOf env ctx scope (cellName (symbolName env ctx c) indices.reverse) cell :=
      ⟨(c, indices), inside, split, rfl⟩
    obtain ⟨inside', _, same⟩ := Classical.choose_spec named
    obtain ⟨symbols, cells⟩ := apart.cell_eq inside inside' same
    unfold carry
    dsimp only
    rw [dif_pos named, ← symbols, ← cells]
  · intro c inside line min max bounds i
    have named : ∃ cell, ElementOf env p ctx scope (symbolName env ctx c) (i - min) cell :=
      ⟨(c, i), inside, line, rfl, min, max, bounds, rfl⟩
    obtain ⟨inside', _, same, min', max', bounds', index⟩ := Classical.choose_spec named
    have symbols := apart.name_eq inside inside' same
    rw [← symbols, bounds] at bounds'
    cases bounds'
    have cells : (Classical.choose named).2 = i := by omega
    unfold carry
    dsimp only
    rw [dif_pos named, ← symbols, cells]

/-! ## Meaning of printed texts -/

/-- The text is read as exactly one tree, and in every state the tree has the value
of the expression, its parameters and select variables standing for their
arguments. -/
def KeepsMeaning (env : Env) (p : Option Instance) (ctx : ContextPrefix) (scope : List Symbol)
    (e : Expr) (text : String) : Prop :=
  ∃ tree, Reads text tree ∧ (∀ other, Reads text other → other = tree) ∧
    Renders env p ctx scope e tree

theorem keepsMeaning_of_operand {text : String} {tree : Tree} (operand : Operand text tree)
    (renders : Renders env p ctx scope e tree) : KeepsMeaning env p ctx scope e text := by
  have reads := operand.expression.reads
  exact ⟨tree, reads, fun other others => others.unique reads, renders⟩

end

/-! ## An array with a negative index -/

/-- `int[0,3] a[int[-1,1]] = { 1, 2, 3 }`. -/
def signedEnv : Env :=
  envOfSymbols [⟨"t(0)", .prim .clock, false, some ⟨none⟩⟩,
    ⟨"a", signedArray, false, some ⟨some (.nary .list [.constant 1 (.prim .int),
      .constant 2 (.prim .int), .constant 3 (.prim .int)] signedArray)⟩⟩]
where
  signedArray : Ty := .array digitType indexType
  digitType : Ty := .range (.prim .int) (.constant 0 (.prim .int)) (.constant 3 (.prim .int))
  indexType : Ty := .range (.prim .int) (.constant (-1) (.prim .int)) (.constant 1 (.prim .int))

/-- `a[i]`. -/
def signedCell (i : Int) : Expr :=
  .binary .array (.identifier 1 signedEnv.signedArray) (.constant i (.prim .int)) signedEnv.digitType

theorem checked_signedCell (i : Int) : Checked signedEnv none [1] (signedCell i) := by
  have closed (s : Symbol) : mapped? none s = none := rfl
  have array : Checked signedEnv none [1] (.identifier 1 signedEnv.signedArray) :=
    .ofDeclared closed rfl (by decide)
  exact .ofCell rfl array (.ofConstant closed i _)

theorem variablesApart_signedEnv : VariablesApart signedEnv [] [1] := by
  intro c inside c' inside' differ
  rw [List.mem_singleton] at inside inside'
  exact absurd (inside.trans inside'.symm) differ

theorem isName_signedEnv : ∀ c ∈ [1], IsName (symbolName signedEnv [] c) := by
  intro c inside
  rw [List.mem_singleton] at inside
  subst inside
  exact ⟨⟨'a', [], rfl, rfl⟩, rfl, by decide⟩

/-- `1 & 1`. -/
def bitConjunction : Expr :=
  .binary .bitAnd (.constant 1 (.prim .int)) (.constant 1 (.prim .int)) (.prim .int)

theorem checked_bitConjunction : Checked signedEnv none [1] bitConjunction := by
  have closed (s : Symbol) : mapped? none s = none := rfl
  exact .ofBinary (by decide) (.ofConstant closed 1 _) (.ofConstant closed 1 _)

theorem settled_bitConjunction : Settled signedEnv none bitConjunction where
  checked := by
    have one : CheckedBelow signedEnv none (.constant 1 (.prim .int)) :=
      checkedBelow_constant ⟨by decide, by decide⟩
    refine .node (.node trivial fun x listed => ?_) fun x next => ?_
    · rcases List.mem_pair.mp listed with rfl | rfl <;> exact one _ .refl
    · cases next with
      | sub child => rcases List.mem_pair.mp child with rfl | rfl <;> exact one
      | lower sized => cases sized
      | upper sized => cases sized
  settled x reached unsettled := by
    rcases Relation.ReflTransGen.cases_head reached with rfl | ⟨y, visits, _⟩
    · cases unsettled
    · cases visits with
      | left listed => cases listed
      | right listed => cases listed

theorem cellName_ne_trailing (indices : List Int) : cellName "a" indices.reverse ≠ "a_" := by
  intro same
  have texts := congrArg String.toList same
  rw [toList_cellName] at texts
  cases indices with
  | nil => cases texts
  | cons i rest =>
      have digits : intText i ++ joined '_' intText rest = [] :=
        (List.cons.inj (List.cons.inj texts).2).2
      have empty : toString i = "" := String.toList_inj.mp (List.append_eq_nil_iff.mp digits).1
      obtain ⟨⟨c, rest', starts, _⟩, _⟩ := operand_number i
      rw [empty] at starts
      cases starts

end Utot
