import Utot.Meaning.Places
import Utot.Tchecker.Operands

/-!
# Printed expressions are operands with the same value

Every text `translate_expression` prints is an operand of the TChecker grammar,
and it is read as one tree.  In a valuation that carries the state over to the
printed names, the tree has the value of the expression.
-/

namespace Utot

open Utap Uppaal Library Tchecker

/-! ## Expressions that can be rendered -/

/-- The expressions whose references are treated the way their variables are
declared, whose cells have names that can be read back, and whose Booleans are no
converted integers; what the translator rejects is among them. -/
inductive Faithful (env : Env) (p : Option Instance) : Expr → Prop where
  | not {x : Expr} {t : Ty} (operand : Faithful env p x) : Faithful env p (.unary .not x t)
  | unaryMinus {x : Expr} {t : Ty} (operand : Faithful env p x) :
      Faithful env p (.unary .unaryMinus x t)
  | or {l r : Expr} {t : Ty} (left : Faithful env p l) (right : Faithful env p r) :
      Faithful env p (.binary .or l r t)
  | binary {k : BinaryKind} {l r : Expr} {t : Ty} {op : String} (listed : binaryText k = some op)
      (left : Faithful env p l) (right : Faithful env p r) : Faithful env p (.binary k l r t)
  | inlineIf {c y n : Expr} {t : Ty} (cond : Faithful env p c) (yes : Faithful env p y)
      (no : Faithful env p n) : Faithful env p (.inlineIf c y n t)
  | constant {v : Int} {t : Ty} : Faithful env p (.constant v t)
  | parameter {s : Symbol} {t : Ty} {argument : Expr} (bound : mapped? p s = some argument)
      (kept : converts t argument.type = true →
        ∃ v, (v = 0 ∨ v = 1) ∧ YieldsExactly env p argument v)
      (later : Faithful env p argument) : Faithful env p (.identifier s t)
  | declared {s : Symbol} {t : Ty} (unbound : mapped? p s = none)
      (single : (env.getType s).isArray = false) : Faithful env p (.identifier s t)
  | cell {a i : Expr} {t : Ty} {c : Symbol} {indices : List Int}
      (path : SplitPath env p (.binary .array a i t) c indices) (natural : ∀ j ∈ indices, 0 ≤ j) :
      Faithful env p (.binary .array a i t)
  | element {a i : Expr} {t : Ty} {c : Symbol} (array : WholeUse env p a c)
      (index : Faithful env p i) : Faithful env p (.binary .array a i t)
  | rejectedUnary {k : UnaryKind} {x : Expr} {t : Ty} (noNot : k ≠ .not) (noMinus : k ≠ .unaryMinus) :
      Faithful env p (.unary k x t)
  | rejectedBinary {k : BinaryKind} {l r : Expr} {t : Ty} (unlisted : binaryText k = none)
      (noOr : k ≠ .or) (noArray : k ≠ .array) : Faithful env p (.binary k l r t)
  | rejectedNary {k : NaryKind} {es : List Expr} {t : Ty} : Faithful env p (.nary k es t)

/-- The valuation gives the names of the cells of `scope` the values the state
gives the cells; the arrays of TChecker start at 0. -/
structure Carries {V : Type} (env : Env) (p : Option Instance) (ctx : ContextPrefix)
    (scope : List Symbol) (σ : State V) (τ : Valuation V) : Prop where
  cells : ∀ c ∈ scope, oneDim env c = false → ∀ indices : List Int,
    τ.scalar (cellName (symbolName env ctx c) indices.reverse) = σ c indices
  lines : ∀ c ∈ scope, oneDim env c = true → ∀ min max,
    indexBounds env p (env.getType c) = .ok (min, max) → ∀ i,
      τ.cell (symbolName env ctx c) (i - min) = σ c [i]

/-! ## Names of cells -/

theorem isWordChar_intText {i : Int} (natural : 0 ≤ i) : ∀ c ∈ intText i, isWordChar c = true := by
  intro c inside
  obtain ⟨n, rfl⟩ := Int.eq_ofNat_of_zero_le natural
  change c ∈ n.repr.toList at inside
  rw [Nat.toList_repr] at inside
  have digit := Nat.isDigit_of_mem_toDigits (by decide) (by decide) inside
  rw [isWordChar, Char.isAlphanum, digit, Bool.or_true, Bool.true_or]

/-- A name with natural indices is a name. -/
theorem isName_cellName {name : String} {indices : List Int} (isName : IsName name)
    (natural : ∀ j ∈ indices, 0 ≤ j) : IsName (cellName name indices.reverse) := by
  obtain ⟨⟨c, rest, text, start⟩, word, noKeyword⟩ := isName
  have split := toList_cellName name indices
  refine ⟨⟨c, rest ++ joined '_' intText indices, by rw [split, text, List.cons_append], start⟩, ?_, ?_⟩
  · rw [split, List.all_append, word, Bool.true_and, List.all_eq_true]
    intro d inside
    obtain ⟨j, listed, member⟩ := List.mem_flatMap.mp inside
    rcases List.mem_cons.mp member with rfl | digit
    · rfl
    · exact isWordChar_intText (natural j listed) d digit
  · cases indices with
    | nil => exact noKeyword
    | cons j rest =>
        intro keyword
        have inside : '_' ∈ (cellName name (j :: rest).reverse).toList := by
          rw [split]
          exact List.mem_append_right _ List.mem_cons_self
        have none : ∀ k ∈ keywords, '_' ∉ k.toList := by decide
        exact none _ keyword inside

/-! ## Operators -/

/-- The tree of an operator `translate_expression` prints. -/
def operatorTree : BinaryKind → Tree → Tree → Tree
  | .and => .and
  | k => .binary k

/-- What the table of `BINARY_OP` prints between two operands is an operator. -/
theorem operand_operator {k : BinaryKind} {op left right : String} {x y : Tree}
    (listed : binaryText k = some op) (first : Operand left x) (second : Operand right y) :
    Operand ("(" ++ left ++ " " ++ op ++ " " ++ right ++ ")") (operatorTree k x y) := by
  have inner : Expression (left ++ (" " ++ op ++ " ") ++ right) (operatorTree k x y) := by
    cases k <;> cases listed <;>
      exact first.between second ⟨rfl, fun _ _ => rfl⟩ rfl rfl rfl (by decide) (by decide)
  have whole := inner.group
  simp only [String.append_assoc] at whole ⊢
  exact whole

/-- The rewriting of `||`. -/
theorem operand_or {left right : String} {x y : Tree} (first : Operand left x)
    (second : Operand right y) : Operand ("!(!(" ++ left ++ ") && !(" ++ right ++ "))")
      (.not (.and (.not x) (.not y))) := by
  have inner : Expression ("!(" ++ left ++ ")" ++ " && " ++ ("!(" ++ right ++ ")")) _ :=
    first.expression.not.between second.expression.not (w := ['&', '&']) (b := .and)
      (f := none) (n := 1) ⟨rfl, fun _ _ => rfl⟩ rfl rfl rfl (by decide) (by decide)
  have whole := inner.not
  have pieces : ") && !(" = ")" ++ (" && " ++ "!(") := rfl
  have ends : "))" = ")" ++ ")" := rfl
  have starts : "!(!(" = "!(" ++ "!(" := rfl
  rw [pieces, ends, starts]
  simp only [String.append_assoc] at whole ⊢
  exact whole

/-- An index and the start of its array. -/
theorem expression_offset {index : String} {x : Tree} (operand : Operand index x) (min : Int) :
    Expression (index ++ offsetText min)
      (if min ≠ 0 then .binary .minus x (numberTree min) else x) := by
  unfold offsetText
  split
  · have minus : Closed "-" [['-']] := ⟨rfl, fun _ _ => rfl⟩
    have difference := operand.between (operand_number min) minus (b := .binary .minus)
      (f := some .negate) (n := 4) rfl rfl rfl (by decide) (by decide)
    rwa [String.append_assoc] at difference
  · rw [String.append_empty]
    exact operand.expression

/-! ## Values -/

section

variable {env : Env} {p : Option Instance} {scope : List Symbol} {ctx : ContextPrefix} {e : Expr}

/-- The tree has the value of the expression, in every state and in the valuation
that carries it over. -/
def Renders (env : Env) (p : Option Instance) (ctx : ContextPrefix) (scope : List Symbol) (e : Expr)
    (tree : Tree) : Prop :=
  ∀ (V : Type) (A : Arithmetic V) (f : State V → Option V), Means A p e (.value f) →
    ∀ σ τ, GivesConstants A env p σ → Carries env p ctx scope σ τ → tree.value A τ = f σ

theorem scope_of_denotes {c : Symbol} {indices : List Int} (checked : Checked env p scope e)
    (denotes : Denotes env p e c indices) : c ∈ scope := by
  induction denotes with
  | declared unbound => exact checked.visible _ _ .self unbound
  | parameter bound _ ih => exact ih (checked.argument bound)
  | cell _ _ ih => exact ih checked.left

theorem renders_constant {v value : Int} {t : Ty} (read : (Expr.constant v t).getValue? = some value) :
    Renders env p ctx scope (.constant v t) (numberTree value) := by
  intro V A f means σ τ _ _
  rw [value_numberTree]
  unfold Expr.getValue? Ty.isIntegral at read
  cases means with
  | integer isInt =>
      simp only [isInt, Bool.true_or, if_true, Option.some.injEq] at read
      rw [read]
  | boolean isBool notInt =>
      simp only [isBool, notInt, Bool.false_or, if_true, Bool.false_eq_true, if_false,
        Option.some.injEq] at read
      rw [← read, Arithmetic.ofBool, truth]
      split <;> simp_all
  | read place => cases place

/-- The offset of an index moves the bounds of the array to 0. -/
theorem value_offset {V : Type} (A : Arithmetic V) (τ : Valuation V) {tree : Tree} {x : Option V}
    (value : tree.value A τ = x) (min : Int) :
    ((if min ≠ 0 then Tree.binary .minus tree (numberTree min) else tree).value A τ).bind A.toInt =
      (x.bind A.toInt).map fun i => i - min := by
  subst value
  by_cases zero : min = 0
  · subst zero
    rw [if_neg (not_not.mpr rfl)]
    simp
  · rw [if_pos zero]
    change ((tree.value A τ).bind fun a => ((numberTree min).value A τ).bind fun b =>
      A.operate .minus a b).bind A.toInt = _
    rw [value_numberTree]
    cases tree.value A τ with
    | none => rfl
    | some v =>
        rw [Option.bind_some, Option.bind_some, Option.bind_some]
        cases int : A.toInt v with
        | some i =>
            rw [A.ofInt_toInt v i int, A.operate_ofInt .minus i min (i - min) rfl, Option.bind_some,
              A.toInt_ofInt, Option.map_some]
        | none =>
            rw [Option.map_none]
            cases difference : A.operate .minus v (A.ofInt min) with
            | none => rfl
            | some w =>
                rw [Option.bind_some]
                cases int' : A.toInt w with
                | none => rfl
                | some n =>
                    rw [A.minus_ofInt v min w n difference int', A.toInt_ofInt] at int
                    cases int

theorem renders_element {a i : Expr} {t : Ty} {c : Symbol} {tree : Tree} {min max : Int}
    (checked : Checked env p scope (.binary .array a i t)) (array : WholeUse env p a c)
    (bounds : indexBounds env p (env.getType c) = .ok (min, max))
    (index : Renders env p ctx scope i tree) :
    Renders env p ctx scope (.binary .array a i t) (.elem (symbolName env ctx c)
      (if min ≠ 0 then .binary .minus tree (numberTree min) else tree)) := by
  intro V A f means σ τ constants carries
  obtain ⟨c', indices, g, place, at', rfl⟩ := means_array means
  obtain ⟨rfl, rfl⟩ := place_whole array.denotes place
  have offset := value_offset A τ (index V A g at' σ τ constants carries) min
  change ((Tree.value A τ _).bind A.toInt).bind (τ.cell _) = _
  rw [offset]
  dsimp only [indexed]
  cases (g σ).bind A.toInt with
  | none => rfl
  | some n =>
      exact carries.lines _ (scope_of_denotes checked.left array.denotes) array.line min max bounds n

theorem renders_binary {k : BinaryKind} {l r : Expr} {t : Ty} {op : String} {x y : Tree}
    (listed : binaryText k = some op) (left : Renders env p ctx scope l x)
    (right : Renders env p ctx scope r y) :
    Renders env p ctx scope (.binary k l r t) (operatorTree k x y) := by
  intro V A f means σ τ constants carries
  by_cases conjunction : k = .and
  · subst conjunction
    obtain ⟨g, h, first, second, rfl⟩ := means_and means
    change A.andOf (x.value A τ) (y.value A τ) = _
    rw [left V A g first σ τ constants carries, right V A h second σ τ constants carries]
  · have operator : isOperator k = true := by
      cases k <;> first | rfl | exact absurd rfl conjunction | cases listed
    obtain ⟨g, h, first, second, rfl⟩ := means_binary operator means
    have tree : operatorTree k x y = .binary k x y := by
      cases k <;> first | rfl | exact absurd rfl conjunction
    rw [tree]
    change ((x.value A τ).bind fun a => (y.value A τ).bind fun b => A.operate k a b) = _
    rw [left V A g first σ τ constants carries, right V A h second σ τ constants carries]

theorem renders_or {l r : Expr} {t : Ty} {x y : Tree} (left : Renders env p ctx scope l x)
    (right : Renders env p ctx scope r y) :
    Renders env p ctx scope (.binary .or l r t) (.not (.and (.not x) (.not y))) := by
  intro V A f means σ τ constants carries
  obtain ⟨g, h, first, second, rfl⟩ := means_or means
  change A.notOf (A.andOf (A.notOf (x.value A τ)) (A.notOf (y.value A τ))) = _
  dsimp only
  rw [left V A g first σ τ constants carries, right V A h second σ τ constants carries,
    A.orOf_eq]

/-- The truth values 0 and 1 are their own. -/
theorem truthOf_of_isTruth {V : Type} {A : Arithmetic V} {v : Int} (isTruth : v = 0 ∨ v = 1) :
    A.truthOf (some (A.ofInt v)) = some (A.ofInt v) := by
  refine (congrArg some (ofBool_ne_zero v)).trans ?_
  rcases isTruth with rfl | rfl <;> rfl

theorem renders_cell {c : Symbol} {indices : List Int} (checked : Checked env p scope e)
    (denotes : Denotes env p e c indices) (split : oneDim env c = false)
    (reference : ∀ (V : Type) (A : Arithmetic V) (f : State V → Option V), Means A p e (.value f) →
      ∃ c' g, Means A p e (.place c' g) ∧ f = fun σ => (g σ).bind (σ c')) :
    Renders env p ctx scope e (.name (cellName (symbolName env ctx c) indices.reverse)) := by
  intro V A f means σ τ constants carries
  obtain ⟨c', g, place, rfl⟩ := reference V A f means
  obtain ⟨rfl, constant⟩ := place_of_denotes checked denotes place
  dsimp only
  rw [constant σ constants, Option.bind_some]
  exact carries.cells _ (scope_of_denotes checked denotes) split indices

/-! ## Printed expressions -/

/-- The operators of the table are printed between their operands. -/
theorem translateAux_binary {depth : Nat} {k : BinaryKind} {l r : Expr} {t : Ty} {op : String}
    (listed : binaryText k = some op) :
    translateAux env (depth + 1) p (.binary k l r t) ctx = (do
      let left ← translateAux env depth p l ctx
      let right ← translateAux env depth p r ctx
      .ok ("(" ++ left ++ " " ++ op ++ " " ++ right ++ ")")) := by
  cases k <;> cases listed <;> rfl

theorem rejectExpression_ne_ok {e : Expr} {op : Option String} {text : String} :
    rejectExpression e op ≠ .ok text := by
  intro printed
  cases op <;> cases printed

theorem translateAux_otherUnary {depth : Nat} {k : UnaryKind} {x : Expr} {t : Ty}
    (noNot : k ≠ .not) (noMinus : k ≠ .unaryMinus) : translateAux env (depth + 1) p (.unary k x t) ctx =
      rejectExpression (.unary k x t) (unsupportedUnary k) := by
  cases k <;> first | rfl | exact absurd rfl noNot | exact absurd rfl noMinus

theorem translateAux_rejectedUnary {depth : Nat} {k : UnaryKind} {x : Expr} {t : Ty} {text : String}
    (noNot : k ≠ .not) (noMinus : k ≠ .unaryMinus) :
    translateAux env depth p (.unary k x t) ctx ≠ .ok text := by
  cases depth with
  | zero => exact fun printed => by cases printed
  | succ depth =>
      rw [translateAux_otherUnary noNot noMinus]
      exact rejectExpression_ne_ok

theorem translateAux_otherBinary {depth : Nat} {k : BinaryKind} {l r : Expr} {t : Ty}
    (unlisted : binaryText k = none) (noOr : k ≠ .or) (noArray : k ≠ .array) :
    translateAux env (depth + 1) p (.binary k l r t) ctx =
      rejectExpression (.binary k l r t) (unsupportedBinary k) := by
  cases k <;> first | rfl | exact absurd rfl noOr | exact absurd rfl noArray | cases unlisted

theorem translateAux_rejectedBinary {depth : Nat} {k : BinaryKind} {l r : Expr} {t : Ty}
    {text : String} (unlisted : binaryText k = none) (noOr : k ≠ .or) (noArray : k ≠ .array) :
    translateAux env depth p (.binary k l r t) ctx ≠ .ok text := by
  cases depth with
  | zero => exact fun printed => by cases printed
  | succ depth =>
      rw [translateAux_otherBinary unlisted noOr noArray]
      exact rejectExpression_ne_ok

/-- What stands in front of the operand of a unary operator. -/
def unaryText : UnaryKind → Option String
  | .not => some "!("
  | .unaryMinus => some "-("
  | _ => none

theorem translateAux_unary {depth : Nat} {k : UnaryKind} {x : Expr} {t : Ty} {front : String}
    (listed : unaryText k = some front) :
    translateAux env (depth + 1) p (.unary k x t) ctx = (do
      let inner ← translateAux env depth p x ctx
      .ok (front ++ inner ++ ")")) := by
  cases k <;> cases listed <;> rfl

theorem translateAux_unlistedUnary {depth : Nat} {k : UnaryKind} {x : Expr} {t : Ty}
    (unlisted : unaryText k = none) : translateAux env (depth + 1) p (.unary k x t) ctx =
      rejectExpression (.unary k x t) (unsupportedUnary k) := by
  refine translateAux_otherUnary ?_ ?_
  · rintro rfl
    cases unlisted
  · rintro rfl
    cases unlisted

theorem translateAux_unary_eq_ok {depth : Nat} {k : UnaryKind} {x : Expr} {t : Ty} {text : String}
    (printed : translateAux env (depth + 1) p (.unary k x t) ctx = .ok text) :
    ∃ front inner, unaryText k = some front ∧ translateAux env depth p x ctx = .ok inner ∧
      text = front ++ inner ++ ")" := by
  cases listed : unaryText k with
  | none =>
      rw [translateAux_unlistedUnary listed] at printed
      exact absurd printed rejectExpression_ne_ok
  | some front =>
      rw [translateAux_unary listed] at printed
      obtain ⟨inner, operand, printed⟩ := Res.bind_eq_ok.mp printed
      cases printed
      exact ⟨front, inner, rfl, operand, rfl⟩

/-- What stands before, between and behind the operands of an operator that is no subscript. -/
def operandsText : BinaryKind → Option (String × String × String)
  | .or => some ("!(!(", ") && !(", "))")
  | k => (binaryText k).map fun op => ("(", " " ++ op ++ " ", ")")

theorem operandsText_of_ne {k : BinaryKind} (noOr : k ≠ .or) :
    operandsText k = (binaryText k).map fun op => ("(", " " ++ op ++ " ", ")") := by
  cases k <;> first | rfl | exact absurd rfl noOr

theorem translateAux_operands {depth : Nat} {k : BinaryKind} {l r : Expr} {t : Ty}
    {front middle back : String} (listed : operandsText k = some (front, middle, back)) :
    translateAux env (depth + 1) p (.binary k l r t) ctx = (do
      let left ← translateAux env depth p l ctx
      let right ← translateAux env depth p r ctx
      .ok (front ++ left ++ middle ++ right ++ back)) := by
  by_cases isOr : k = .or
  · subst isOr
    cases listed
    rfl
  · rw [operandsText_of_ne isOr] at listed
    obtain ⟨op, found, same⟩ := Option.map_eq_some_iff.mp listed
    cases same
    rw [translateAux_binary found]
    simp only [String.append_assoc]

theorem translateAux_unlisted {depth : Nat} {k : BinaryKind} {l r : Expr} {t : Ty}
    (unlisted : operandsText k = none) (noArray : k ≠ .array) :
    translateAux env (depth + 1) p (.binary k l r t) ctx =
      rejectExpression (.binary k l r t) (unsupportedBinary k) := by
  have noOr : k ≠ .or := by
    rintro rfl
    cases unlisted
  rw [operandsText_of_ne noOr] at unlisted
  exact translateAux_otherBinary (Option.map_eq_none_iff.mp unlisted) noOr noArray

theorem translateAux_operands_eq_ok {depth : Nat} {k : BinaryKind} {l r : Expr} {t : Ty} {text : String}
    (noArray : k ≠ .array) (printed : translateAux env (depth + 1) p (.binary k l r t) ctx = .ok text) :
    ∃ front middle back left right, operandsText k = some (front, middle, back) ∧
      translateAux env depth p l ctx = .ok left ∧ translateAux env depth p r ctx = .ok right ∧
        text = front ++ left ++ middle ++ right ++ back := by
  cases listed : operandsText k with
  | none =>
      rw [translateAux_unlisted listed noArray] at printed
      exact absurd printed rejectExpression_ne_ok
  | some frame =>
      obtain ⟨front, middle, back⟩ := frame
      rw [translateAux_operands listed] at printed
      obtain ⟨left, first, printed⟩ := Res.bind_eq_ok.mp printed
      obtain ⟨right, second, printed⟩ := Res.bind_eq_ok.mp printed
      cases printed
      exact ⟨front, middle, back, left, right, rfl, first, second, rfl⟩

/-- An element of an array, whose index is printed as an operand. -/
theorem operand_of_element (names : ∀ c ∈ scope, IsName (symbolName env ctx c)) {a i : Expr} {t : Ty}
    {c : Symbol} (array : WholeUse env p a c) (checked : Checked env p scope (.binary .array a i t))
    {depth : Nat} {text : String} (printed : translateAux env (depth + 1) p (.binary .array a i t) ctx = .ok text)
    (index : ∀ {text}, translateAux env depth p i ctx = .ok text →
      ∃ tree, Operand text tree ∧ Renders env p ctx scope i tree) :
    ∃ min max tree, indexBounds env p (env.getType c) = .ok (min, max) ∧
      Operand text (.elem (symbolName env ctx c)
        (if min ≠ 0 then .binary .minus tree (numberTree min) else tree)) ∧
      Renders env p ctx scope i tree := by
  obtain ⟨⟨answer, min, max⟩, decided, printed⟩ := Res.bind_eq_ok.mp printed
  obtain ⟨whole, bounds⟩ := array.use_eq checked.left decided
  subst whole
  obtain ⟨front, first, printed⟩ := Res.bind_eq_ok.mp printed
  obtain ⟨inner, second, printed⟩ := Res.bind_eq_ok.mp printed
  cases printed
  obtain ⟨tree, operand, renders⟩ := index second
  rw [translateAux_whole array.denotes first]
  have isName := names _ (scope_of_denotes checked.left array.denotes)
  have elem := (expression_offset operand min).subscript isName
  rw [← String.append_assoc] at elem
  exact ⟨min, max, tree, bounds, elem, renders⟩

/-- Every printed text is an operand, and the tree it is read as has the value of
the expression. -/
theorem operand_of_faithful (names : ∀ c ∈ scope, IsName (symbolName env ctx c))
    (faithful : Faithful env p e) (checked : Checked env p scope e) {depth : Nat} {text : String}
    (printed : translateAux env depth p e ctx = .ok text) :
    ∃ tree, Operand text tree ∧ Renders env p ctx scope e tree := by
  induction faithful generalizing depth text with
  | not _ ih =>
      cases depth with
      | zero => cases printed
      | succ depth =>
          obtain ⟨inner, first, printed⟩ := Res.bind_eq_ok.mp printed
          cases printed
          obtain ⟨x, operand, renders⟩ := ih checked.unary first
          refine ⟨.not x, operand.expression.not, fun V A f means σ τ constants carries => ?_⟩
          obtain ⟨g, below, rfl⟩ := means_not means
          change A.notOf (x.value A τ) = _
          rw [renders V A g below σ τ constants carries]
  | unaryMinus _ ih =>
      cases depth with
      | zero => cases printed
      | succ depth =>
          obtain ⟨inner, first, printed⟩ := Res.bind_eq_ok.mp printed
          cases printed
          obtain ⟨x, operand, renders⟩ := ih checked.unary first
          refine ⟨.negate x, operand.expression.negate, fun V A f means σ τ constants carries => ?_⟩
          obtain ⟨g, below, rfl⟩ := means_unaryMinus means
          change (x.value A τ).map A.negate = _
          rw [renders V A g below σ τ constants carries]
  | or _ _ ihl ihr =>
      cases depth with
      | zero => cases printed
      | succ depth =>
          obtain ⟨left, first, printed⟩ := Res.bind_eq_ok.mp printed
          obtain ⟨right, second, printed⟩ := Res.bind_eq_ok.mp printed
          cases printed
          obtain ⟨x, operand, renders⟩ := ihl checked.left first
          obtain ⟨y, operand', renders'⟩ := ihr checked.right second
          exact ⟨_, operand_or operand operand', renders_or renders renders'⟩
  | binary listed _ _ ihl ihr =>
      cases depth with
      | zero => cases printed
      | succ depth =>
          rw [translateAux_binary listed] at printed
          obtain ⟨left, first, printed⟩ := Res.bind_eq_ok.mp printed
          obtain ⟨right, second, printed⟩ := Res.bind_eq_ok.mp printed
          cases printed
          obtain ⟨x, operand, renders⟩ := ihl checked.left first
          obtain ⟨y, operand', renders'⟩ := ihr checked.right second
          exact ⟨_, operand_operator listed operand operand', renders_binary listed renders renders'⟩
  | inlineIf _ _ _ ihc ihy ihn =>
      cases depth with
      | zero => cases printed
      | succ depth =>
          obtain ⟨cond, first, printed⟩ := Res.bind_eq_ok.mp printed
          obtain ⟨yes, second, printed⟩ := Res.bind_eq_ok.mp printed
          obtain ⟨no, third, printed⟩ := Res.bind_eq_ok.mp printed
          cases printed
          obtain ⟨x, operand, renders⟩ := ihc (checked.within (.cond .self)) first
          obtain ⟨y, operand', renders'⟩ := ihy (checked.within (.yes .self)) second
          obtain ⟨z, operand'', renders''⟩ := ihn (checked.within (.no .self)) third
          refine ⟨.choose x y z, operand.expression.choose operand'.expression operand''.expression,
            fun V A f means σ τ constants carries => ?_⟩
          obtain ⟨g, h, k, ofCond, ofYes, ofNo, rfl⟩ := means_inlineIf means
          change A.chooseOf (x.value A τ) (y.value A τ) (z.value A τ) = _
          rw [renders V A g ofCond σ τ constants carries, renders' V A h ofYes σ τ constants carries,
            renders'' V A k ofNo σ τ constants carries]
  | constant =>
      cases depth with
      | zero => cases printed
      | succ depth =>
          obtain ⟨value, read, printed⟩ := Res.bind_eq_ok.mp printed
          cases printed
          exact ⟨_, operand_number value, renders_constant (orAssert_eq_ok.mp read)⟩
  | parameter bound kept _ ih =>
      cases depth with
      | zero => cases printed
      | succ depth =>
          simp only [translateAux, bound] at printed
          have later := checked.argument bound
          obtain ⟨tree, operand, renders⟩ := ih later printed
          refine ⟨tree, operand, fun V A f means σ τ constants carries => ?_⟩
          rcases means_parameter bound means with ⟨_, direct⟩ | ⟨other, g, below, rfl⟩
          · exact renders V A f direct σ τ constants carries
          · obtain ⟨v, isTruth, value⟩ := kept other
            dsimp only
            rw [renders V A g below σ τ constants carries,
              value_of_evaluates later (evaluates_of_yieldsExactly value) below constants,
              truthOf_of_isTruth isTruth]
  | @declared s t unbound single =>
      have split : oneDim env s = false := by
        rw [oneDim, looksOneDim, single, Bool.false_and, Bool.false_and]
      rw [translateAux_whole (.declared unbound) printed]
      refine ⟨_, operand_name (names s (checked.visible s t .self unbound)), ?_⟩
      exact renders_cell checked (.declared unbound) split fun V A f means =>
        ⟨s, _, .declared unbound, means_declared unbound means⟩
  | cell path natural =>
      rw [path.printed_eq checked printed]
      refine ⟨_, operand_name (isName_cellName
        (names _ (scope_of_denotes checked path.denotes)) natural), ?_⟩
      refine renders_cell checked path.denotes path.split fun V A f means => ?_
      obtain ⟨c, indices, g, array, at', rfl⟩ := means_array means
      exact ⟨c, _, .cell array at', rfl⟩
  | element array _ ih =>
      cases depth with
      | zero => cases printed
      | succ depth =>
          obtain ⟨min, max, x, bounds, operand, renders⟩ :=
            operand_of_element names array checked printed fun second => ih checked.right second
          exact ⟨_, operand, renders_element checked array bounds renders⟩
  | rejectedUnary noNot noMinus => exact absurd printed (translateAux_rejectedUnary noNot noMinus)
  | rejectedBinary unlisted noOr noArray =>
      exact absurd printed (translateAux_rejectedBinary unlisted noOr noArray)
  | rejectedNary =>
      cases depth with
      | zero => cases printed
      | succ depth =>
          rw [translateAux] at printed
          exact absurd printed rejectExpression_ne_ok

end

end Utot
