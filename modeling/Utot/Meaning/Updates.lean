import Utot.Meaning.Guards
import Utot.Tchecker.Statements
import Utot.Uppaal.Updates

/-!
# Updates

Every text `translate_assignment` prints is a sequence of statements, and these
take the carried state to the state the update leads to.
-/

namespace Utot

open Utap Uppaal Library Tchecker

/-! ## Updates that can be rendered -/

/-- The parameters on the way to a cell are references, of the type of their arguments. -/
inductive ByReference (env : Env) (p : Option Instance) : Expr → Prop where
  | declared {s : Symbol} {t : Ty} (unbound : mapped? p s = none) : ByReference env p (.identifier s t)
  | parameter {s : Symbol} {t : Ty} {argument : Expr} (bound : mapped? p s = some argument)
      (ref : (env.getType s).is .ref = true) (direct : converts t argument.type = false)
      (later : ByReference env p argument) : ByReference env p (.identifier s t)
  | cell {a i : Expr} {t : Ty} (array : ByReference env p a) : ByReference env p (.binary .array a i t)

/-- The targets that are cells of variables and clocks. -/
inductive FaithfulTarget (env : Env) (p : Option Instance) : Expr → Prop where
  | cell {l : Expr} {c : Symbol} {indices : List Int} (path : SplitPath env p l c indices)
      (natural : ∀ j ∈ indices, 0 ≤ j) (references : ByReference env p l)
      (mutable' : (env.getType c).isConstant = false) : FaithfulTarget env p l
  | element {a i : Expr} {t : Ty} {c : Symbol} (array : WholeUse env p a c) (index : Faithful env p i)
      (references : ByReference env p a) (mutable' : (env.getType c).isConstant = false) :
      FaithfulTarget env p (.binary .array a i t)

/-- The updates whose targets are cells and whose values can be rendered, and
those that are rejected.  A Boolean is assigned no integer but 0 or 1. -/
inductive FaithfulUpdate (env : Env) (p : Option Instance) : Expr → Prop where
  | assign {l r : Expr} {t : Ty} (target : FaithfulTarget env p l) (value : Faithful env p r)
      (kept : converts l.type r.type = true → ∃ v, (v = 0 ∨ v = 1) ∧ YieldsExactly env p r v) :
      FaithfulUpdate env p (.binary .assign l r t)
  | compound {k : BinaryKind} {l r : Expr} {t : Ty} {op : String} (listed : assignOpText k = some op)
      (target : FaithfulTarget env p l) (value : Faithful env p r) :
      FaithfulUpdate env p (.binary k l r t)
  | step {k : UnaryKind} {x : Expr} {t : Ty} {op : String} (listed : incDecText k = some op)
      (target : FaithfulTarget env p x) : FaithfulUpdate env p (.unary k x t)
  | comma {l r : Expr} {t : Ty} (first : FaithfulUpdate env p l) (second : FaithfulUpdate env p r) :
      FaithfulUpdate env p (.binary .comma l r t)
  | constant {v : Int} {t : Ty} : FaithfulUpdate env p (.constant v t)
  | rejectedBinary {k : BinaryKind} {l r : Expr} {t : Ty} (noAssign : k ≠ .assign)
      (noComma : k ≠ .comma) (unlisted : assignOpText k = none) : FaithfulUpdate env p (.binary k l r t)
  | rejectedUnary {k : UnaryKind} {x : Expr} {t : Ty} (unlisted : incDecText k = none) :
      FaithfulUpdate env p (.unary k x t)
  | rejectedIdentifier {s : Symbol} {t : Ty} : FaithfulUpdate env p (.identifier s t)
  | rejectedInlineIf {c y n : Expr} {t : Ty} : FaithfulUpdate env p (.inlineIf c y n t)
  | rejectedNary {k : NaryKind} {es : List Expr} {t : Ty} : FaithfulUpdate env p (.nary k es t)

section

variable {env : Env} {p : Option Instance} {scope : List Symbol} {ctx : ContextPrefix} {e : Expr}
  {text : String} {tree : Tree}

/-! ## Assignments to cells -/

theorem carries_set {V : Type} {σ : State V} {τ : Valuation V} (apart : VariablesApart env ctx scope)
    (carries : Carries env p ctx scope σ τ) {c : Symbol} (inside : c ∈ scope)
    (split : oneDim env c = false) (indices : List Int) (v : V) :
    Carries env p ctx scope (σ.set c indices v)
      (τ.set (cellName (symbolName env ctx c) indices.reverse) v) := by
  constructor
  · intro c' inside' split' indices'
    dsimp only [Valuation.set, State.set]
    by_cases same : c' = c ∧ indices' = indices
    · obtain ⟨rfl, rfl⟩ := same
      rw [if_pos rfl, if_pos ⟨rfl, rfl⟩]
    · rw [if_neg same, if_neg fun names => same (apart.cell_eq inside' inside names)]
      exact carries.cells c' inside' split' indices'
  · intro c' inside' line min max bounds i
    dsimp only [Valuation.set, State.set]
    have other : ¬ (c' = c ∧ [i] = indices) := by
      rintro ⟨rfl, _⟩
      rw [split] at line
      cases line
    rw [if_neg other]
    exact carries.lines c' inside' line min max bounds i

theorem carries_setElem {V : Type} {σ : State V} {τ : Valuation V}
    (apart : VariablesApart env ctx scope) (carries : Carries env p ctx scope σ τ) {c : Symbol}
    (inside : c ∈ scope) (line : oneDim env c = true) {min max : Int}
    (bounds : indexBounds env p (env.getType c) = .ok (min, max)) (i : Int) (v : V) :
    Carries env p ctx scope (σ.set c [i] v) (τ.setElem (symbolName env ctx c) (i - min) v) := by
  constructor
  · intro c' inside' split' indices'
    dsimp only [Valuation.setElem, State.set]
    have other : ¬ (c' = c ∧ indices' = [i]) := by
      rintro ⟨rfl, _⟩
      rw [line] at split'
      cases split'
    rw [if_neg other]
    exact carries.cells c' inside' split' indices'
  · intro c' inside' line' min' max' bounds' i'
    dsimp only [Valuation.setElem, State.set]
    by_cases same : c' = c ∧ i' = i
    · obtain ⟨rfl, rfl⟩ := same
      rw [bounds] at bounds'
      cases bounds'
      rw [if_pos ⟨rfl, rfl⟩, if_pos ⟨rfl, rfl⟩]
    · have other : ¬ (c' = c ∧ [i'] = [i]) := fun ⟨symbols, indices⟩ =>
        same ⟨symbols, (List.cons.inj indices).1⟩
      have other' : ¬ (symbolName env ctx c' = symbolName env ctx c ∧ i' - min' = i - min) := by
        rintro ⟨names, indices⟩
        have symbols := apart.name_eq inside' inside names
        subst symbols
        rw [bounds] at bounds'
        cases bounds'
        exact same ⟨rfl, by omega⟩
      rw [if_neg other, if_neg other']
      exact carries.lines c' inside' line' min' max' bounds' i'

/-- An assignment changes no constant. -/
theorem givesConstants_set {V : Type} {A : Arithmetic V} {σ : State V}
    (constants : GivesConstants A env p σ) {c : Symbol} (mutable' : (env.getType c).isConstant = false)
    (indices : List Int) (v : V) : GivesConstants A env p (σ.set c indices v) := by
  have other {c' : Symbol} (constant : (env.getType c').isConstant = true) (indices' : List Int) :
      σ.set c indices v c' indices' = σ c' indices' := by
    refine if_neg ?_
    rintro ⟨rfl, _⟩
    rw [mutable'] at constant
    cases constant
  intro c' init indices' w constant given value
  rw [other constant]
  exact constants c' init indices' w constant given value

/-! ## Targets -/

/-- Along references, what is stored to is what is read. -/
theorem means_of_stores {V : Type} {A : Arithmetic V} {l : Expr} {c : Symbol}
    {g : State V → Option (List Int)} (references : ByReference env p l)
    (stores : Stores A env p l c g) : Means A p l (.place c g) := by
  induction stores with
  | declared unbound => exact .declared unbound
  | value bound noRef =>
      cases references with
      | declared unbound =>
          rw [unbound] at bound
          cases bound
      | parameter _ ref =>
          rw [noRef] at ref
          cases ref
  | reference bound _ _ ih =>
      cases references with
      | declared unbound =>
          rw [unbound] at bound
          cases bound
      | parameter bound' _ direct later =>
          rw [bound] at bound'
          cases bound'
          exact .parameter bound direct (ih later)
  | cell _ at' ih =>
      cases references with
      | cell array => exact .cell (ih array) at'

/-- The state and the valuation that carries it over. -/
structure Carried {V : Type} (A : Arithmetic V) (env : Env) (p : Option Instance) (ctx : ContextPrefix)
    (scope : List Symbol) (σ : State V) (τ : Valuation V) : Prop where
  constants : GivesConstants A env p σ
  carries : Carries env p ctx scope σ τ

/-- The left side is a variable, a clock or an array of the model. -/
def Stored (env : Env) (ctx : ContextPrefix) (scope : List Symbol) : Statement → Prop
  | .nop => True
  | .assign id _ => ∃ cell, CellOf env ctx scope id cell
  | .assignElem id _ _ => ∃ c ∈ scope, oneDim env c = true ∧ id = symbolName env ctx c

/-- Assignments to the tree store to the cell of the expression. -/
def Assigns (env : Env) (p : Option Instance) (ctx : ContextPrefix) (scope : List Symbol) (l : Expr)
    (tree : Tree) : Prop :=
  ∀ x, ∃ s, assignTo tree x = some s ∧ Stored env ctx scope s ∧
    ∀ (V : Type) (A : Arithmetic V) (c : Symbol) (g : State V → Option (List Int)),
      Stores A env p l c g → ∀ σ τ, Carried A env p ctx scope σ τ →
        Option.Rel (Carried A env p ctx scope) (σ.store c (g σ) (x.value A τ)) (s.run A τ)

theorem rel_store {V : Type} {A : Arithmetic V} {σ : State V} {c : Symbol}
    {indices : List Int} {set : V → Valuation V} (old v : Option V)
    (sets : ∀ v, Carried A env p ctx scope (σ.set c indices v) (set v)) (same : σ c indices = old) :
    Option.Rel (Carried A env p ctx scope) (σ.store c (some indices) v)
      (old.bind fun _ => v.map set) := by
  unfold State.store
  rw [Option.bind_some, same]
  cases old with
  | none => exact .none
  | some w =>
      cases v with
      | none => exact .none
      | some v => exact .some (sets v)

theorem assigns_cell (apart : VariablesApart env ctx scope) (checked : Checked env p scope e)
    {c : Symbol} {indices : List Int} (path : SplitPath env p e c indices)
    (references : ByReference env p e) (mutable' : (env.getType c).isConstant = false) :
    Assigns env p ctx scope e (.name (cellName (symbolName env ctx c) indices.reverse)) := by
  intro x
  have inside := scope_of_denotes checked path.denotes
  refine ⟨_, rfl, ⟨(c, indices), inside, path.split, rfl⟩, ?_⟩
  intro V A c' g stores σ τ carried
  obtain ⟨rfl, constant⟩ := place_of_denotes checked path.denotes (means_of_stores references stores)
  rw [constant σ carried.constants]
  refine rel_store _ _ (fun v => ⟨?_, ?_⟩) (carried.carries.cells _ inside path.split indices).symm
  · exact givesConstants_set carried.constants mutable' indices v
  · exact carries_set apart carried.carries inside path.split indices v

theorem assigns_element (apart : VariablesApart env ctx scope) {a i : Expr} {t : Ty} {c : Symbol}
    {min max : Int} (checked : Checked env p scope (.binary .array a i t)) (array : WholeUse env p a c)
    (references : ByReference env p a) (mutable' : (env.getType c).isConstant = false)
    (bounds : indexBounds env p (env.getType c) = .ok (min, max))
    (index : Renders env p ctx scope i tree) :
    Assigns env p ctx scope (.binary .array a i t) (.elem (symbolName env ctx c)
      (if min ≠ 0 then .binary .minus tree (numberTree min) else tree)) := by
  intro x
  have inside := scope_of_denotes checked.left array.denotes
  refine ⟨_, rfl, ⟨c, inside, array.line, rfl⟩, ?_⟩
  intro V A c' g stores σ τ carried
  cases stores with
  | @cell _ _ _ _ g' f stores at' =>
      obtain ⟨rfl, rfl⟩ := place_whole array.denotes (means_of_stores references stores)
      have offset := value_offset A τ (index V A f at' σ τ carried.constants carried.carries) min
      change Option.Rel _ _ (((Tree.value A τ _).bind A.toInt).bind fun n =>
        (τ.cell (symbolName env ctx c') n).bind fun _ =>
          (x.value A τ).map (τ.setElem (symbolName env ctx c') n))
      rw [offset]
      dsimp only [indexed]
      cases (f σ).bind A.toInt with
      | none => exact .none
      | some n =>
          refine rel_store _ _ (fun v => ⟨?_, ?_⟩)
            (carried.carries.lines _ inside array.line min max bounds n).symm
          · exact givesConstants_set carried.constants mutable' [n] v
          · exact carries_setElem apart carried.carries inside array.line bounds n v

/-- A target is printed as an operand that can be assigned to. -/
theorem operand_of_target (names : ∀ c ∈ scope, IsName (symbolName env ctx c))
    (apart : VariablesApart env ctx scope) (checked : Checked env p scope e)
    (target : FaithfulTarget env p e) (printed : translateExpression env p e ctx = .ok text) :
    ∃ tree, Operand text tree ∧ Assigns env p ctx scope e tree ∧
      ∀ (V : Type) (A : Arithmetic V) (c : Symbol) (g : State V → Option (List Int)),
        Stores A env p e c g → ∀ σ τ, Carried A env p ctx scope σ τ →
          tree.value A τ = (g σ).bind (σ c) := by
  cases target with
  | @cell _ c indices path natural references mutable' =>
      rw [path.printed_eq checked printed]
      refine ⟨_, operand_name (isName_cellName (names _ (scope_of_denotes checked path.denotes)) natural),
        assigns_cell apart checked path references mutable', ?_⟩
      intro V A c' g stores σ τ carried
      obtain ⟨rfl, constant⟩ := place_of_denotes checked path.denotes
        (means_of_stores references stores)
      rw [constant σ carried.constants]
      exact carried.carries.cells _ (scope_of_denotes checked path.denotes) path.split indices
  | element array index references mutable' =>
      unfold translateExpression at printed
      cases depth : env.stack with
      | zero =>
          rw [depth] at printed
          cases printed
      | succ depth =>
          rw [depth] at printed
          obtain ⟨min, max, x, bounds, operand, renders⟩ :=
            operand_of_element names array checked printed
              fun inner => operand_of_faithful names index checked.right inner
          refine ⟨_, operand, assigns_element apart checked array references mutable' bounds renders, ?_⟩
          intro V A c' g stores σ τ carried
          have means := means_of_stores (.cell references) stores
          exact renders_element checked array bounds renders V A _ (.read means) σ τ carried.constants
            carried.carries

/-! ## Printed updates -/

/-- The statements take the valuation that carries a state to one that carries the
state behind the update. -/
def Performs (env : Env) (p : Option Instance) (ctx : ContextPrefix) (scope : List Symbol) (e : Expr)
    (statements : List Statement) : Prop :=
  ∀ (V : Type) (A : Arithmetic V) (F : State V → Option (State V)), Executes A env p e F →
    ∀ σ τ, Carried A env p ctx scope σ τ →
      Option.Rel (Carried A env p ctx scope) (F σ) (runAll A statements τ)

theorem runAll_single {V : Type} (A : Arithmetic V) (s : Statement) (τ : Valuation V) :
    runAll A [s] τ = s.run A τ := by
  rw [runAll]
  cases s.run A τ <;> rfl

theorem rel_bind {α β : Type} {R : α → β → Prop} {f : α → Option α} {g : β → Option β} {x : Option α}
    {y : Option β} (first : Option.Rel R x y) (second : ∀ a b, R a b → Option.Rel R (f a) (g b)) :
    Option.Rel R (x.bind f) (y.bind g) := by
  cases first with
  | none => exact .none
  | some related => exact second _ _ related

theorem performs_append {l r : Expr} {t : Ty} {ss ss' : List Statement}
    (first : Performs env p ctx scope l ss) (second : Performs env p ctx scope r ss') :
    Performs env p ctx scope (.binary .comma l r t) (ss ++ ss') := by
  intro V A F executes σ τ carried
  cases executes with
  | compound operator => cases operator
  | @comma _ _ _ F G executes executes' =>
      rw [runAll_append]
      exact rel_bind (first V A F executes σ τ carried) (second V A G executes')

/-- The operators of `ASSIGN_OP` are those of the compound assignments. -/
theorem compound_of_assignOpText {k : BinaryKind} {op : String} (listed : assignOpText k = some op) :
    ∃ o, compoundOperator k = some o ∧ ∀ {left right : String} {y x : Tree}, Operand left y →
      Operand right x → Expression (left ++ op ++ right) (.binary o y x) := by
  cases k <;> cases listed <;> exact ⟨_, rfl, fun first second =>
    first.between second ⟨rfl, fun _ _ => rfl⟩ rfl rfl rfl (by decide) (by decide)⟩

/-- The operators of `ASSIGN_INCDEC` are those of increments and decrements. -/
theorem step_of_incDecText {k : UnaryKind} {op : String} (listed : incDecText k = some op) :
    ∃ o, stepOperator k = some o ∧ ∀ {left right : String} {y x : Tree}, Operand left y →
      Operand right x → Expression (left ++ op ++ right) (.binary o y x) := by
  cases k <;> cases listed <;> exact ⟨_, rfl, fun first second =>
    first.between second ⟨rfl, fun _ _ => rfl⟩ rfl rfl rfl (by decide) (by decide)⟩

theorem assignBinaryOp_eq_ok {var arg : Expr} {op : String}
    (printed : assignBinaryOp env p var op arg ctx = .ok text) :
    ∃ target operand, translateExpression env p var ctx = .ok target ∧
      translateExpression env p arg ctx = .ok operand ∧
      text = target ++ "=" ++ (target ++ op ++ operand) := by
  obtain ⟨target, first, printed⟩ := Res.bind_eq_ok.mp printed
  obtain ⟨again, second, printed⟩ := Res.bind_eq_ok.mp printed
  obtain ⟨operand, third, printed⟩ := Res.bind_eq_ok.mp printed
  rw [first] at second
  cases second
  cases printed
  exact ⟨target, operand, first, third, by simp only [String.append_assoc]⟩

theorem operand_of_one (printed : translateExpression env p (Expr.createConstant 1) ctx = .ok text) :
    Operand text (numberTree 1) := by
  unfold translateExpression at printed
  cases depth : env.stack with
  | zero =>
      rw [depth] at printed
      cases printed
  | succ depth =>
      rw [depth] at printed
      cases printed
      exact operand_number 1

theorem translateAssignment_rejectedBinary {k : BinaryKind} {l r : Expr} {t : Ty}
    (noAssign : k ≠ .assign) (noComma : k ≠ .comma) (unlisted : assignOpText k = none) :
    translateAssignment env p (.binary k l r t) ctx ≠ .ok text := by
  intro printed
  cases k <;> first
    | exact absurd rfl noAssign
    | exact absurd rfl noComma
    | (cases unlisted; done)
    | cases printed

theorem translateAssignment_rejectedUnary {k : UnaryKind} {x : Expr} {t : Ty}
    (unlisted : incDecText k = none) : translateAssignment env p (.unary k x t) ctx ≠ .ok text := by
  intro printed
  cases k <;> first
    | (cases unlisted; done)
    | cases printed

/-- A compound assignment, an increment or a decrement: the target is printed on
both sides of `=`. -/
theorem update_of_assignBinaryOp (names : ∀ c ∈ scope, IsName (symbolName env ctx c))
    (apart : VariablesApart env ctx scope) {l arg : Expr} (checked : Checked env p scope l)
    (target : FaithfulTarget env p l) {op : String} {o : BinaryKind} {x : Tree}
    (operator : ∀ {left right : String} {y x : Tree}, Operand left y → Operand right x →
      Expression (left ++ op ++ right) (.binary o y x))
    (argument : ∀ {text}, translateExpression env p arg ctx = .ok text → Operand text x)
    (printed : assignBinaryOp env p l op arg ctx = .ok text) :
    ∃ s, Update text [s] ∧ Stored env ctx scope s ∧
      ∀ (V : Type) (A : Arithmetic V) (c : Symbol) (g : State V → Option (List Int)),
        Stores A env p l c g → ∀ σ τ, Carried A env p ctx scope σ τ →
          Option.Rel (Carried A env p ctx scope)
            (σ.store c (g σ) (((g σ).bind (σ c)).bind fun a => (x.value A τ).bind fun b =>
              A.operate o a b)) (s.run A τ) := by
  obtain ⟨front, behind, first, second, rfl⟩ := assignBinaryOp_eq_ok printed
  obtain ⟨y, operand, assigns, reads⟩ := operand_of_target names apart checked target first
  have value := operator operand (argument second)
  obtain ⟨s, made, stored, performs⟩ := assigns (.binary o y x)
  have starts : StartsOperand (front ++ op ++ behind) := (operand.1.append op).append behind
  refine ⟨s, update_assign operand value starts made, stored, ?_⟩
  intro V A c g stores σ τ carried
  have result := performs V A c g stores σ τ carried
  have read : (Tree.binary o y x).value A τ = ((g σ).bind (σ c)).bind fun a =>
      (x.value A τ).bind fun b => A.operate o a b := by
    rw [Tree.value, reads V A c g stores σ τ carried]
  rwa [read] at result

/-- The truth values 0 and 1 are assigned as they are. -/
theorem convertOf_of_kept {V : Type} {A : Arithmetic V} {target : Ty} {f : State V → Option V} {σ : State V}
    (kept : converts target e.type = true → ∃ v, (v = 0 ∨ v = 1) ∧ YieldsExactly env p e v)
    (checked : Checked env p scope e) (means : Means A p e (.value f)) (constants : GivesConstants A env p σ) :
    A.convertOf target e.type (f σ) = f σ := by
  unfold Arithmetic.convertOf
  split
  · rename_i other
    obtain ⟨v, isTruth, value⟩ := kept other
    rw [value_of_evaluates checked (evaluates_of_yieldsExactly value) means constants,
      truthOf_of_isTruth isTruth]
  · rfl

/-- Every printed update is a sequence of statements that perform it. -/
theorem update_of_faithful (names : ∀ c ∈ scope, IsName (symbolName env ctx c))
    (apart : VariablesApart env ctx scope) (checked : Checked env p scope e)
    (faithful : FaithfulUpdate env p e) (printed : translateAssignment env p e ctx = .ok text) :
    ∃ ss, Update text ss ∧ (∀ s ∈ ss, Stored env ctx scope s) ∧ Performs env p ctx scope e ss := by
  induction faithful generalizing text with
  | assign target value kept =>
      obtain ⟨front, first, printed⟩ := Res.bind_eq_ok.mp printed
      obtain ⟨behind, second, printed⟩ := Res.bind_eq_ok.mp printed
      cases printed
      obtain ⟨y, operand, assigns, _⟩ := operand_of_target names apart checked.left target first
      obtain ⟨x, operand', renders⟩ := operand_of_faithful names value checked.right second
      obtain ⟨s, made, stored, performs⟩ := assigns x
      refine ⟨[s], update_assign operand operand'.expression operand'.1 made,
        List.forall_mem_singleton.mpr stored, ?_⟩
      intro V A F executes σ τ carried
      rw [runAll_single]
      cases executes with
      | assign stores means =>
          have same := convertOf_of_kept kept checked.right means carried.constants
          dsimp only
          rw [same, ← renders V A _ means σ τ carried.constants carried.carries]
          exact performs V A _ _ stores σ τ carried
      | compound operator => cases operator
  | @compound k l r t op listed target value =>
      obtain ⟨o, operator, between⟩ := compound_of_assignOpText listed
      have printed : assignBinaryOp env p l op r ctx = .ok text := by
        cases k <;> cases listed <;> exact printed
      obtain ⟨front, behind, _, second, _⟩ := assignBinaryOp_eq_ok printed
      obtain ⟨x, operand, renders⟩ := operand_of_faithful names value checked.right second
      obtain ⟨s, update, stored, performs⟩ := update_of_assignBinaryOp names apart checked.left target
        between (fun third => by rw [second] at third; cases third; exact operand) printed
      refine ⟨[s], update, List.forall_mem_singleton.mpr stored, ?_⟩
      intro V A F executes σ τ carried
      rw [runAll_single]
      cases executes with
      | assign => cases listed
      | compound operator' stores means =>
          rw [operator] at operator'
          cases operator'
          dsimp only
          rw [← renders V A _ means σ τ carried.constants carried.carries]
          exact performs V A _ _ stores σ τ carried
      | comma => cases listed
  | @step k x t op listed target =>
      obtain ⟨o, operator, between⟩ := step_of_incDecText listed
      have printed : assignBinaryOp env p x op (Expr.createConstant 1) ctx = .ok text := by
        cases k <;> cases listed <;> exact printed
      obtain ⟨s, update, stored, performs⟩ := update_of_assignBinaryOp names apart checked.unary target
        between operand_of_one printed
      refine ⟨[s], update, List.forall_mem_singleton.mpr stored, ?_⟩
      intro V A F executes σ τ carried
      rw [runAll_single]
      cases executes with
      | step operator' stores =>
          rw [operator] at operator'
          cases operator'
          have result := performs V A _ _ stores σ τ carried
          rwa [value_numberTree] at result
  | comma _ _ ihl ihr =>
      obtain ⟨first, front, printed⟩ := Res.bind_eq_ok.mp printed
      obtain ⟨second, behind, printed⟩ := Res.bind_eq_ok.mp printed
      cases printed
      obtain ⟨ss, update, stored, performs⟩ := ihl checked.left front
      obtain ⟨ss', update', stored', performs'⟩ := ihr checked.right behind
      refine ⟨ss ++ ss', update.append update', ?_, performs_append performs performs'⟩
      exact List.forall_mem_append.mpr ⟨stored, stored'⟩
  | constant =>
      obtain ⟨value, _, printed⟩ := Res.bind_eq_ok.mp printed
      split at printed
      · cases printed
      · cases printed
        refine ⟨[.nop], update_nop, List.forall_mem_singleton.mpr trivial, ?_⟩
        intro V A F executes σ τ carried
        cases executes
        exact .some carried
  | rejectedBinary noAssign noComma unlisted =>
      exact absurd printed (translateAssignment_rejectedBinary noAssign noComma unlisted)
  | rejectedUnary unlisted => exact absurd printed (translateAssignment_rejectedUnary unlisted)
  | rejectedIdentifier => cases printed
  | rejectedInlineIf => cases printed
  | @rejectedNary k =>
      cases k <;> cases printed

/-- The text is read as exactly one sequence of statements; they assign to what the
model stores, and from every state they lead to the state behind the update. -/
def KeepsUpdate (env : Env) (p : Option Instance) (ctx : ContextPrefix) (scope : List Symbol)
    (e : Expr) (text : String) : Prop :=
  ∃ ss, ReadsUpdate text ss ∧ (∀ other, ReadsUpdate text other → other = ss) ∧
    (∀ s ∈ ss, Stored env ctx scope s) ∧ Performs env p ctx scope e ss

end

/-! ## An increment of a parameter -/

/-- `a[0]++, a[1] += a[0]`. -/
def signedUpdate : Expr :=
  .binary .comma (.unary .postIncrement (signedCell 0) signedEnv.digitType)
    (.binary .assPlus (signedCell 1) (signedCell 0) signedEnv.digitType) signedEnv.digitType

/-- `process T(int pid)`, whose parameter is a variable of its own. -/
def counterEnv : Env :=
  envOfSymbols [⟨"t(0)", .prim .clock, false, some ⟨none⟩⟩, ⟨"P", .prim .unknown, false, none⟩,
    ⟨"pid", intType, true, none⟩]
where
  intType : Ty := .range (.prim .int) (.constant (-32768) (.prim .int)) (.constant 32767 (.prim .int))

/-- `P = T(2)`. -/
def counterProcess : Instance :=
  { uid := 1, parameters := [2], mapping := (∅ : Mapping).insert 2 (.constant 2 (.prim .int))
    unbound := 0, templ := { vars := [], iodecl := [], functions := [], init := 0, states := [], edges := [] } }

/-- `pid++`. -/
def counterUpdate : Expr :=
  .unary .postIncrement (.identifier 2 counterEnv.intType) counterEnv.intType

theorem mapped_counterProcess {s : Symbol} {argument : Expr}
    (bound : mapped? (some counterProcess) s = some argument) :
    s = 2 ∧ argument = .constant 2 (.prim .int) := by
  change ((∅ : Mapping).insert 2 (.constant 2 (.prim .int)))[s]? = some argument at bound
  rw [Std.TreeMap.getElem?_insert] at bound
  split at bound
  · rename_i same
    cases bound
    exact ⟨(compare_eq_iff_eq.mp same).symm, rfl⟩
  · cases bound

theorem checked_counterUpdate : Checked counterEnv (some counterProcess) [] counterUpdate := by
  have constant {x : Expr} {t : Ty} (inside : Written (some counterProcess) x (.constant 2 t)) :
      x = .constant 2 t := by
    cases inside
    rfl
  apply Checked.ofUnary
  constructor
  · intro s t inside
    cases inside with
    | self => rfl
    | argument bound inside =>
        rw [(mapped_counterProcess bound).2] at inside
        cases constant inside
  · intro s t inside unbound
    cases inside with
    | self => cases unbound
    | argument bound inside =>
        rw [(mapped_counterProcess bound).2] at inside
        cases constant inside
  · intro a i t inside
    cases inside with
    | argument bound inside =>
        rw [(mapped_counterProcess bound).2] at inside
        cases constant inside
  · intro s argument bound
    obtain ⟨rfl, rfl⟩ := mapped_counterProcess bound
    exact ⟨rfl, rfl⟩

end Utot
