import Mathlib.Order.Filter.AtTopBot.Basic
import Utot.Meaning.Reach

/-!
# The evaluator computes exactly or stops

Beyond some depth of the native stack the evaluator returns the value of an
expression, raises a translation error, or reaches a step that is not defined.
-/

namespace Utot

open Utap Uppaal Library

/-- The program is stopped by an assertion or by undefined behaviour. -/
def Aborts : Fault → Prop
  | .assertion _ => True
  | .undefined _ => True
  | _ => False

/-- A bind that fails had one of its parts fail. -/
theorem Res.bind_eq_error {α β : Type} {x : Res α} {g : α → Res β} {f : Fault} :
    (x >>= g) = .error f ↔ x = .error f ∨ ∃ a, x = .ok a ∧ g a = .error f := by
  cases x with
  | error e =>
      constructor
      · intro failed
        cases failed
        exact .inl rfl
      · rintro (same | ⟨a, returned, _⟩)
        · cases same
          rfl
        · cases returned
  | ok a =>
      constructor
      · intro failed
        exact .inr ⟨a, rfl, failed⟩
      · rintro (same | ⟨a', same, failed⟩)
        · cases same
        · cases same
          exact failed

theorem not_aborts_trErr {α : Type} {args : List Arg} {f : Fault}
    (failed : (trErr args : Res α) = .error f) : ¬ Aborts f := by
  cases failed
  exact id

/-! ## Operators and ranges -/

section

variable {a b : Int} {k : BinaryKind} {op : Int → Int → Res Int} {size : Ty}

theorem checkedInt_of_isInt (fits : IsInt a) : checkedInt a = .ok a := if_pos fits

theorem checkedInt_of_not_isInt (outside : ¬ IsInt a) :
    checkedInt a = .error (.undefined "signed overflow") := if_neg outside

/-- The table of operators: a defined operation returns its result, every other one
is undefined behaviour. -/
theorem binaryOp_spec (listed : binaryOp k = some op) (a b : Int) :
    (Defined k a b ∧ ∃ v, operate k a b = some v ∧ op a b = .ok v) ∨
      ¬ Defined k a b ∧ ∃ what, op a b = .error (.undefined what) := by
  have checked : ∀ n, (IsInt n ∧ checkedInt n = .ok n) ∨
      ¬ IsInt n ∧ ∃ what, checkedInt n = .error (.undefined what) := by
    intro n
    by_cases fits : IsInt n
    · exact .inl ⟨fits, checkedInt_of_isInt fits⟩
    · exact .inr ⟨fits, _, checkedInt_of_not_isInt fits⟩
  cases k <;> cases listed
  case plus => exact (checked (a + b)).imp (fun both => ⟨both.1, _, rfl, both.2⟩) id
  case minus => exact (checked (a - b)).imp (fun both => ⟨both.1, _, rfl, both.2⟩) id
  case mult => exact (checked (a * b)).imp (fun both => ⟨both.1, _, rfl, both.2⟩) id
  case div =>
    unfold nativeDiv
    by_cases zero : b = 0
    · exact .inr ⟨fun defined => defined.1 zero, _, if_pos zero⟩
    · rw [if_neg zero]
      exact (checked (a.tdiv b)).imp (fun both => ⟨⟨zero, both.1⟩, _, if_neg zero, both.2⟩)
        fun both => ⟨fun defined => both.1 defined.2, both.2⟩
  case mod =>
    unfold nativeMod
    by_cases zero : b = 0
    · exact .inr ⟨fun defined => defined.1 zero, _, if_pos zero⟩
    · rw [if_neg zero]
      rcases checked (a.tdiv b) with ⟨fits, same⟩ | ⟨outside, what, failed⟩
      · rw [same]
        exact .inl ⟨⟨zero, fits⟩, _, if_neg zero, rfl⟩
      · rw [failed]
        exact .inr ⟨fun defined => outside defined.2, what, rfl⟩
  case bitLshift =>
    unfold nativeShiftLeft
    by_cases defined : 0 ≤ b ∧ b < 32 ∧ 0 ≤ a ∧ a * 2 ^ b.toNat < 2 ^ 32
    · exact .inl ⟨defined, _, rfl, if_pos defined⟩
    · exact .inr ⟨defined, _, if_neg defined⟩
  case bitRshift =>
    unfold nativeShiftRight
    by_cases defined : 0 ≤ b ∧ b < 32
    · refine .inl ⟨defined, _, rfl, ?_⟩
      rw [if_pos defined, Int.shiftRight_eq_div_pow]
      norm_cast
    · exact .inr ⟨defined, _, if_neg defined⟩
  case min => exact .inl ⟨trivial, _, rfl, congrArg _ native_min⟩
  case max => exact .inl ⟨trivial, _, rfl, congrArg _ native_max⟩
  all_goals exact .inl ⟨trivial, _, rfl, rfl⟩

theorem binaryOp_of_isOperator (operator : isOperator k = true) : ∃ op, binaryOp k = some op := by
  cases k <;> first | exact ⟨_, rfl⟩ | cases operator

theorem isOperator_of_binaryOp (listed : binaryOp k = some op) : isOperator k = true := by
  cases k <;> first | rfl | cases listed

/-- For a type of indices only the evaluation of its bounds is left. -/
theorem computeRangeBoundsWith_eq (indexType : isIndexType size = true) :
    ∃ lower upper, size.getRange? = some (lower, upper) ∧ ∀ eval, computeRangeBoundsWith eval size =
      (eval lower >>= fun min => eval upper >>= fun max =>
        if max < min then trErr [.text "empty range: ", .type (stripLabelsAndConst size)]
        else .ok (min, max)) := by
  unfold isIndexType at indexType
  rw [Bool.and_eq_true, Bool.and_eq_true] at indexType
  obtain ⟨⟨isRange, kind⟩, bounded⟩ := indexType
  obtain ⟨⟨lower, upper⟩, ranged⟩ := Option.isSome_iff_exists.mp bounded
  refine ⟨lower, upper, (getRange?_stripLabelsAndConst size).symm.trans ranged, fun eval => ?_⟩
  cases first : (stripLabelsAndConst size).first? with
  | none =>
      rw [first] at kind
      cases kind
  | some base =>
      rw [first, Option.elim_some] at kind
      unfold computeRangeBoundsWith
      dsimp only
      rw [isRange, first]
      change (assertThat (base.kind == .prim .int || base.kind == .prim .scalar) _ >>= _) = _
      rw [kind]
      change (orAssert _ (stripLabelsAndConst size).getRange? >>= _) = _
      rw [ranged]
      rfl

/-- Every other type fails an assertion. -/
theorem computeRangeBoundsWith_assertion (other : isIndexType size = false)
    (eval : Expr → Res Int) : ∃ what, computeRangeBoundsWith eval size = .error (.assertion what) := by
  unfold isIndexType at other
  unfold computeRangeBoundsWith
  dsimp only at other ⊢
  cases isRange : (stripLabelsAndConst size).isRange with
  | false => exact ⟨_, rfl⟩
  | true =>
      cases first : (stripLabelsAndConst size).first? with
      | none => exact ⟨_, rfl⟩
      | some base =>
          change ∃ what, (assertThat (base.kind == .prim .int || base.kind == .prim .scalar) _ >>= _) =
            .error (.assertion what)
          cases kind : (base.kind == .prim .int || base.kind == .prim .scalar) with
          | false => exact ⟨_, rfl⟩
          | true =>
              change ∃ what, (orAssert _ (stripLabelsAndConst size).getRange? >>= _) =
                .error (.assertion what)
              cases ranged : (stripLabelsAndConst size).getRange? with
              | none => exact ⟨_, rfl⟩
              | some bounds =>
                  rw [isRange, first, Option.elim_some, kind, ranged] at other
                  cases other

end

/-! ## One level of the evaluator -/

section

variable {env : Env} {p : Option Instance} {depth : Nat} {e l r x : Expr} {t : Ty} {s : Symbol}

theorem not_rejected (typed : isNumber t = true) :
    ¬ (!(t.isInteger || t.isBoolean || t.isScalar)) = true := by
  rw [Bool.not_eq_true', Bool.not_eq_false]
  exact typed

theorem evalAux_rejected (other : isNumber e.type = false) :
    ∃ args, evalAux env (depth + 1) p e = trErr args := by
  unfold evalAux
  refine ⟨_, if_pos ?_⟩
  rw [Bool.not_eq_true']
  exact other

theorem evalAux_not_eq (typed : isNumber t = true) : evalAux env (depth + 1) p (.unary .not x t) =
    (evalAux env depth p x >>= fun v => .ok (truth (v = 0))) := by
  conv_lhs => unfold evalAux
  exact if_neg (not_rejected typed)

theorem evalAux_unaryMinus_eq (typed : isNumber t = true) :
    evalAux env (depth + 1) p (.unary .unaryMinus x t) =
      (evalAux env depth p x >>= fun v => checkedInt (-v)) := by
  conv_lhs => unfold evalAux
  exact if_neg (not_rejected typed)

theorem evalAux_binary_eq {k : BinaryKind} {op : Int → Int → Res Int} (typed : isNumber t = true)
    (listed : binaryOp k = some op) : evalAux env (depth + 1) p (.binary k l r t) =
      (evalAux env depth p l >>= fun a => evalAux env depth p r >>= fun b => op a b) := by
  conv_lhs => unfold evalAux
  cases k <;> cases listed <;> exact if_neg (not_rejected typed)

theorem evalAux_and_eq (typed : isNumber t = true) : evalAux env (depth + 1) p (.binary .and l r t) =
    (evalAux env depth p l >>= fun a => if a = 0 then .ok 0
      else evalAux env depth p r >>= fun b => .ok (truth (b ≠ 0))) := by
  conv_lhs => unfold evalAux
  exact if_neg (not_rejected typed)

theorem evalAux_or_eq (typed : isNumber t = true) : evalAux env (depth + 1) p (.binary .or l r t) =
    (evalAux env depth p l >>= fun a => if a ≠ 0 then .ok 1
      else evalAux env depth p r >>= fun b => .ok (truth (b ≠ 0))) := by
  conv_lhs => unfold evalAux
  exact if_neg (not_rejected typed)

theorem evalAux_inlineIf_eq {c y n : Expr} (typed : isNumber t = true) :
    evalAux env (depth + 1) p (.inlineIf c y n t) =
      (evalAux env depth p c >>= fun a =>
        if a ≠ 0 then evalAux env depth p y else evalAux env depth p n) := by
  conv_lhs => unfold evalAux
  exact if_neg (not_rejected typed)

theorem evalAux_initialised_eq {init : Expr} (typed : isNumber t = true)
    (constant : (env.getType s).isConstant = true) (given : env.initialiser s = some init) :
    evalAux env (depth + 1) p (.identifier s t) = evalAux env depth p init := by
  conv_lhs => unfold evalAux
  refine (if_neg (not_rejected typed)).trans ?_
  dsimp only
  rw [if_neg (by rw [constant]; decide), given]

theorem evalAux_bound_eq {argument : Expr} (typed : isNumber t = true)
    (constant : (env.getType s).isConstant = true) (plain : env.initialiser s = none)
    (given : mapped? p s = some argument) :
    evalAux env (depth + 1) p (.identifier s t) = evalAux env depth p argument := by
  conv_lhs => unfold evalAux
  refine (if_neg (not_rejected typed)).trans ?_
  dsimp only
  rw [if_neg (by rw [constant]; decide), plain]
  dsimp only
  rw [given]

/-- The cell the evaluator reads when the index lies within the bounds. -/
def readCell (env : Env) (eval : Expr → Res Int) (a : Expr) (offset : Nat) : Res Int :=
  match a with
  | .identifier s _ =>
      match env.getData s with
      | none => .error (.undefined "null dereference")
      | some var =>
          match var.expr with
          | none => trErr [.text "don't know how to evaluate this array '", .expr a, .text "'."]
          | some init => do
              let cell ← orAssert "i < getSize ()" init.subs[offset]?
              eval cell
  | _ => trErr [.text "don't know how to evaluate this array '", .expr a, .text "'."]

theorem readCell_eq {eval : Expr → Res Int} {init entry : Expr} {offset : Nat}
    (given : env.initialiser s = some init) (found : init.subs[offset]? = some entry) :
    readCell env eval (.identifier s t) offset = eval entry := by
  obtain ⟨var, data, written⟩ := Option.bind_eq_some_iff.mp given
  unfold readCell
  dsimp only
  rw [data]
  dsimp only
  rw [written]
  change (orAssert _ init.subs[offset]? >>= _) = _
  rw [found]
  rfl

theorem evalAux_array_eq {a i : Expr} {size : Ty} (typed : isNumber t = true)
    (sized : a.type.getArraySize? = some size) :
    evalAux env (depth + 1) p (.binary .array a i t) =
      (evalAux env depth p i >>= fun index =>
        computeRangeBoundsWith (evalAux env depth p) size >>= fun bounds =>
          if ¬ (bounds.1 ≤ index ∧ index ≤ bounds.2) then
            trErr [.text "array index ", .int index, .text " out of bounds [", .int bounds.1,
              .text ", ", .int bounds.2, .text "]."]
          else readCell env (evalAux env depth p) a (index - bounds.1).toNat) := by
  conv_lhs => unfold evalAux
  refine (if_neg (not_rejected typed)).trans ?_
  refine congrArg (evalAux env depth p i >>= ·) (funext fun index => ?_)
  rw [isArray_of_getArraySize? sized]
  change (orAssert _ a.type.getArraySize? >>= _) = _
  rw [sized]
  rfl

/-! ## What a result says about the expression -/

theorem computeRangeBoundsWith_eq_ok {eval : Expr → Res Int} {size : Ty} {bounds : Int × Int}
    (computed : computeRangeBoundsWith eval size = .ok bounds) :
    isIndexType size = true ∧ ∃ lower upper, size.getRange? = some (lower, upper) ∧
      eval lower = .ok bounds.1 ∧ eval upper = .ok bounds.2 := by
  cases indexType : isIndexType size with
  | false =>
      obtain ⟨what, failed⟩ := computeRangeBoundsWith_assertion indexType eval
      rw [failed] at computed
      cases computed
  | true =>
      obtain ⟨lower, upper, ranged, same⟩ := computeRangeBoundsWith_eq indexType
      rw [same] at computed
      obtain ⟨min, first, computed⟩ := Res.bind_eq_ok.mp computed
      obtain ⟨max, second, computed⟩ := Res.bind_eq_ok.mp computed
      split at computed
      · cases computed
      · cases computed
        exact ⟨rfl, lower, upper, ranged, first, second⟩

theorem TypeChecked.wellTyped (checked : TypeChecked env p e) : WellTyped e := by
  cases checked with
  | node typed _ => exact typed

theorem TypeChecked.callee (checked : TypeChecked env p e) (listed : x ∈ callees env p e) :
    TypeChecked env p x := by
  cases checked with
  | node _ below => exact below x listed

theorem TypeChecked.initialiser {init : Expr} (checked : TypeChecked env p (.identifier s t))
    (given : env.initialiser s = some init) : TypeChecked env p init :=
  checked.callee (by simp [callees, given])

theorem TypeChecked.argument {argument : Expr} (checked : TypeChecked env p (.identifier s t))
    (given : mapped? p s = some argument) : TypeChecked env p argument :=
  checked.callee (by simp [callees, given])

theorem TypeChecked.bounds {a i lower upper : Expr} {size : Ty}
    (checked : TypeChecked env p (.binary .array a i t)) (sized : a.type.getArraySize? = some size)
    (ranged : size.getRange? = some (lower, upper)) :
    TypeChecked env p i ∧ TypeChecked env p lower ∧ TypeChecked env p upper :=
  ⟨checked.callee (by simp [callees]), checked.callee (by simp [callees, sized, ranged]),
    checked.callee (by simp [callees, sized, ranged])⟩

theorem TypeChecked.entry {i init entry : Expr} {arrayType : Ty}
    (checked : TypeChecked env p (.binary .array (.identifier s arrayType) i t))
    (given : env.initialiser s = some init) (listed : entry ∈ init.subs) : TypeChecked env p entry :=
  checked.callee (by simp [callees, given, listed])

/-- The operands of an operator other than a subscript. -/
theorem TypeChecked.operands {k : BinaryKind} (checked : TypeChecked env p (.binary k l r t))
    (noArray : k ≠ .array) : TypeChecked env p l ∧ TypeChecked env p r := by
  have listed : callees env p (.binary k l r t) = [l, r] := by
    cases k <;> first | rfl | exact absurd rfl noArray
  exact ⟨checked.callee (by simp [listed]), checked.callee (by simp [listed])⟩

theorem binaryOp_ne_array {k : BinaryKind} {op : Int → Int → Res Int} (listed : binaryOp k = some op) :
    k ≠ .array := by
  rintro rfl
  cases listed

/-- What the evaluator returns is the value of the expression, with the operands of an
initialiser for the cells of its array. -/
theorem yields_of_evalAux (checked : TypeChecked env p e) {w : Int}
    (evaluated : evalAux env depth p e = .ok w) : YieldsInitially env p e w := by
  induction depth generalizing e w with
  | zero => cases evaluated
  | succ depth ih =>
      have typed : isNumber e.type = true := evalAux_typed evaluated
      cases e with
      | identifier s t =>
          have constant := evalAux_isConstant evaluated
          rcases evalAux_identifier evaluated with ⟨init, given, later⟩ | ⟨plain, argument, bound, later⟩
          · exact .initialised typed constant given (ih (checked.initialiser given) later) False.elim
          · exact .bound typed constant plain bound (ih (checked.argument bound) later) False.elim
      | constant v t => exact .constant (evalAux_constant evaluated)
      | unary k x t =>
          have below : TypeChecked env p x := checked.callee List.mem_cons_self
          rcases evalAux_unary_kind evaluated with rfl | rfl
          · obtain ⟨a, operand, rfl⟩ := evalAux_not evaluated
            exact .not typed (ih below operand)
          · rw [evalAux_unaryMinus_eq (show isNumber t = true from typed)] at evaluated
            obtain ⟨a, operand, evaluated⟩ := Res.bind_eq_ok.mp evaluated
            by_cases fits : IsInt (-a)
            · rw [checkedInt_of_isInt fits] at evaluated
              cases evaluated
              exact .unaryMinus typed (ih below operand) fits
            · rw [checkedInt_of_not_isInt fits] at evaluated
              cases evaluated
      | binary k l r t =>
          rcases evalAux_binary_kind evaluated with ⟨op, listed⟩ | rfl | rfl | rfl
          · obtain ⟨a, b, left, right, computed⟩ := evalAux_binary listed evaluated
            obtain ⟨first, second⟩ := checked.operands (binaryOp_ne_array listed)
            rcases binaryOp_spec listed a b with ⟨defined, v, result, same⟩ | ⟨_, what, failed⟩
            · rw [same] at computed
              cases computed
              exact .binary typed (ih first left) (ih second right) result defined
            · rw [failed] at computed
              cases computed
          · obtain ⟨first, second⟩ := checked.operands (by decide)
            obtain ⟨a, left, ⟨rfl, rfl⟩ | ⟨holds, b, right, rfl⟩⟩ := evalAux_and evaluated
            · exact .andFalse typed (ih first left)
            · exact .andTrue typed (ih first left) holds (ih second right)
          · obtain ⟨first, second⟩ := checked.operands (by decide)
            obtain ⟨a, left, ⟨holds, rfl⟩ | ⟨rfl, b, right, rfl⟩⟩ := evalAux_or evaluated
            · exact .orTrue typed (ih first left) holds
            · exact .orFalse typed (ih first left) (ih second right)
          · obtain ⟨s, arrayType, index, size, bounds, init, entry, rfl, at', sized, ranged, inside,
              given, found, later⟩ := evalAux_array evaluated
            obtain ⟨indexType, lower, upper, limits, start, stop⟩ :=
              computeRangeBoundsWith_eq_ok ranged
            obtain ⟨index', lower', upper'⟩ := checked.bounds sized limits
            exact .cell typed (ih index' at') sized indexType limits (ih lower' start)
              (ih upper' stop) inside given found
              (ih (checked.entry given (List.mem_of_getElem? found)) later) False.elim False.elim
      | inlineIf c y n t =>
          obtain ⟨a, cond, ⟨holds, chosen⟩ | ⟨rfl, chosen⟩⟩ := evalAux_inlineIf evaluated
          · exact .chooseYes typed (ih (checked.callee (by simp [callees, Expr.subs])) cond) holds
              (ih (checked.callee (by simp [callees, Expr.subs])) chosen)
          · exact .chooseNo typed (ih (checked.callee (by simp [callees, Expr.subs])) cond)
              (ih (checked.callee (by simp [callees, Expr.subs])) chosen)
      | nary k es t =>
          cases evalAux_nary_kind evaluated
          exact absurd (checked.wellTyped.symm.trans typed) Bool.noConfusion
      | sync k channel => cases typed

theorem Misreads.here (misread : MisreadAt env p e) : Misreads env p e := ⟨e, .refl, misread⟩

theorem Misreads.call (calls : Calls env p e x) (inside : Misreads env p x) : Misreads env p e := by
  obtain ⟨y, later, misread⟩ := inside
  exact ⟨y, .head calls later, misread⟩

/-- A number written down is not misread. -/
theorem not_misreads_constant (v : Int) (t : Ty) :
    ¬ Misreads env p (.constant v t) := by
  rintro ⟨x, reached, misread⟩
  rcases reached.cases_head with rfl | ⟨y, calls, _⟩
  · cases misread
  · cases calls

theorem Faulty.here (breaks : Breaks env p e) : Faulty env p e := ⟨e, .refl, breaks⟩

theorem Faulty.call (calls : Calls env p e x) (inside : Faulty env p x) : Faulty env p e := by
  obtain ⟨y, later, breaks⟩ := inside
  exact ⟨y, .head calls later, breaks⟩

/-- An operator other than a subscript that the evaluator does not know is rejected. -/
theorem evalAux_unknown_binary {k : BinaryKind} (typed : isNumber t = true) (noAnd : k ≠ .and)
    (noOr : k ≠ .or) (noArray : k ≠ .array) (unlisted : binaryOp k = none) :
    ∃ args, evalAux env (depth + 1) p (.binary k l r t) = trErr args := by
  conv in evalAux _ _ _ _ => unfold evalAux
  refine ⟨[.text "don't known how to translate expression '", .expr (.binary k l r t), .text "'."],
    (if_neg (not_rejected typed)).trans ?_⟩
  cases k
  case and => exact absurd rfl noAnd
  case or => exact absurd rfl noOr
  case array => exact absurd rfl noArray
  all_goals first | rfl | cases unlisted

theorem evalAux_unknown_unary {k : UnaryKind} (typed : isNumber t = true) (noNot : k ≠ .not)
    (noMinus : k ≠ .unaryMinus) : ∃ args, evalAux env (depth + 1) p (.unary k x t) = trErr args := by
  conv in evalAux _ _ _ _ => unfold evalAux
  refine ⟨[.text "don't known how to translate expression '", .expr (.unary k x t), .text "'."],
    (if_neg (not_rejected typed)).trans ?_⟩
  cases k
  case not => exact absurd rfl noNot
  case unaryMinus => exact absurd rfl noMinus
  all_goals rfl

theorem evalAux_unknown_nary {k : NaryKind} {es : List Expr} (typed : isNumber t = true)
    (noList : k ≠ .list) : ∃ args, evalAux env (depth + 1) p (.nary k es t) = trErr args := by
  conv in evalAux _ _ _ _ => unfold evalAux
  refine ⟨[.text "don't known how to translate expression '", .expr (.nary k es t), .text "'."],
    (if_neg (not_rejected typed)).trans ?_⟩
  cases k
  case list => exact absurd rfl noList
  all_goals rfl

/-- A symbol that is no constant, or a constant without a value, is rejected. -/
theorem evalAux_unknown_identifier (typed : isNumber t = true)
    (unknown : (env.getType s).isConstant = false ∨ env.initialiser s = none ∧ mapped? p s = none) :
    ∃ args, evalAux env (depth + 1) p (.identifier s t) = trErr args := by
  conv in evalAux _ _ _ _ => unfold evalAux
  cases constant : (env.getType s).isConstant with
  | false =>
      refine ⟨[.text "symbol '", .text (env.getName s), .text "' is not a constant.\n"],
        (if_neg (not_rejected typed)).trans (if_pos ?_)⟩
      rw [constant]
      rfl
  | true =>
      rcases unknown with other | ⟨plain, unbound⟩
      · rw [constant] at other
        cases other
      · refine ⟨[.text "unknown constant symbol '", .symbol s, .text "'.\n"],
          (if_neg (not_rejected typed)).trans ((if_neg ?_).trans ?_)⟩
        · rw [constant]
          decide
        · rw [plain]
          dsimp only
          rw [unbound]

theorem evalAux_constant_eq {v : Int} (typed : isNumber t = true) :
    evalAux env (depth + 1) p (.constant v t) =
      orAssert "isIntegral ()" (Expr.constant v t).getValue? := by
  conv_lhs => unfold evalAux
  exact if_neg (not_rejected typed)

section

variable {f : Fault} (typed : isNumber t = true) (aborts : Aborts f)
  (below : ∀ x, TypeChecked env p x → evalAux env depth p x = .error f → Faulty env p x)

include typed aborts below

theorem faulty_identifier (checked : TypeChecked env p (.identifier s t))
    (failed : evalAux env (depth + 1) p (.identifier s t) = .error f) :
    Faulty env p (.identifier s t) := by
  have rejected (unknown : (env.getType s).isConstant = false ∨
      env.initialiser s = none ∧ mapped? p s = none) : Faulty env p (.identifier s t) := by
    obtain ⟨args, same⟩ := evalAux_unknown_identifier typed unknown
    exact absurd aborts (not_aborts_trErr (same.symm.trans failed))
  cases constant : (env.getType s).isConstant with
  | false => exact rejected (.inl constant)
  | true =>
      cases given : env.initialiser s with
      | some init =>
          rw [evalAux_initialised_eq typed constant given] at failed
          exact .call (.initialiser typed constant given)
            (below _ (checked.initialiser given) failed)
      | none =>
          cases bound : mapped? p s with
          | none => exact rejected (.inr ⟨given, bound⟩)
          | some argument =>
              rw [evalAux_bound_eq typed constant given bound] at failed
              exact .call (.argument typed constant given bound)
                (below _ (checked.argument bound) failed)

theorem faulty_unary {k : UnaryKind} (checked : TypeChecked env p (.unary k x t))
    (failed : evalAux env (depth + 1) p (.unary k x t) = .error f) :
    Faulty env p (.unary k x t) := by
  have operand : TypeChecked env p x := checked.callee List.mem_cons_self
  by_cases isNot : k = .not
  · subst isNot
    rw [evalAux_not_eq typed] at failed
    rcases Res.bind_eq_error.mp failed with failed | ⟨_, _, failed⟩
    · exact .call (.operand typed (.inl rfl)) (below _ operand failed)
    · cases failed
  · by_cases isMinus : k = .unaryMinus
    · subst isMinus
      rw [evalAux_unaryMinus_eq typed] at failed
      rcases Res.bind_eq_error.mp failed with failed | ⟨v, value, failed⟩
      · exact .call (.operand typed (.inr rfl)) (below _ operand failed)
      · refine .here (.negation typed (yields_of_evalAux operand value) fun fits => ?_)
        rw [checkedInt_of_isInt fits] at failed
        cases failed
    · obtain ⟨args, same⟩ := evalAux_unknown_unary typed isNot isMinus
      exact absurd aborts (not_aborts_trErr (same.symm.trans failed))

omit aborts in
theorem faulty_inlineIf {c y n : Expr} (checked : TypeChecked env p (.inlineIf c y n t))
    (failed : evalAux env (depth + 1) p (.inlineIf c y n t) = .error f) :
    Faulty env p (.inlineIf c y n t) := by
  have first : TypeChecked env p c := checked.callee (by simp [callees, Expr.subs])
  rw [evalAux_inlineIf_eq typed] at failed
  rcases Res.bind_eq_error.mp failed with failed | ⟨a, cond, failed⟩
  · exact .call (.cond typed) (below _ first failed)
  · have value := yields_of_evalAux first cond
    split at failed
    · rename_i holds
      exact .call (.yes typed value holds)
        (below _ (checked.callee (by simp [callees, Expr.subs])) failed)
    · rename_i zero
      rw [not_not.mp zero] at value
      exact .call (.no typed value) (below _ (checked.callee (by simp [callees, Expr.subs])) failed)

theorem faulty_array {a i : Expr} (checked : TypeChecked env p (.binary .array a i t))
    (failed : evalAux env (depth + 1) p (.binary .array a i t) = .error f) :
    Faulty env p (.binary .array a i t) := by
  obtain ⟨size, sized⟩ := Option.isSome_iff_exists.mp checked.wellTyped
  have second : TypeChecked env p i := checked.callee (by simp [callees])
  rw [evalAux_array_eq typed sized] at failed
  rcases Res.bind_eq_error.mp failed with failed | ⟨index, at', failed⟩
  · exact .call (.index typed sized) (below _ second failed)
  · have value := yields_of_evalAux second at'
    cases indexType : isIndexType size with
    | false => exact .here (.indexType typed value sized indexType)
    | true =>
        obtain ⟨lower, upper, ranged, same⟩ := computeRangeBoundsWith_eq indexType
        obtain ⟨_, lower', upper'⟩ := checked.bounds sized ranged
        rw [same] at failed
        rcases Res.bind_eq_error.mp failed with failed | ⟨bounds, computed, failed⟩
        · rcases Res.bind_eq_error.mp failed with failed | ⟨min, least, failed⟩
          · exact .call (.lower typed value sized indexType ranged) (below _ lower' failed)
          · have start := yields_of_evalAux lower' least
            rcases Res.bind_eq_error.mp failed with failed | ⟨max, _, failed⟩
            · exact .call (.upper typed value sized indexType ranged start) (below _ upper' failed)
            · split at failed
              · exact absurd aborts (not_aborts_trErr failed)
              · cases failed
        · rw [← same] at computed
          obtain ⟨_, lower₂, upper₂, ranged₂, least, greatest⟩ := computeRangeBoundsWith_eq_ok computed
          rw [ranged] at ranged₂
          cases ranged₂
          split at failed
          · exact absurd aborts (not_aborts_trErr failed)
          · rename_i inside
            have offset : AtOffset env p a.type i (index - bounds.1).toNat :=
              .within value sized indexType ranged (yields_of_evalAux lower' least)
                (yields_of_evalAux upper' greatest) (not_not.mp inside)
            cases a with
            | identifier c arrayType =>
                unfold readCell at failed
                dsimp only at failed
                split at failed
                · rename_i noData
                  exact .here (.noData typed offset noData)
                · rename_i var data
                  split at failed
                  · exact absurd aborts (not_aborts_trErr failed)
                  · rename_i init written
                    have given : env.initialiser c = some init := by
                      rw [Env.initialiser, data]
                      exact written
                    rcases Res.bind_eq_error.mp failed with failed | ⟨entry, found, failed⟩
                    · refine .here (.noEntry typed offset given ?_)
                      cases missing : init.subs[(index - bounds.1).toNat]? with
                      | none => rfl
                      | some entry =>
                          rw [missing] at failed
                          cases failed
                    · have found := orAssert_eq_ok.mp found
                      exact .call (.entry typed offset given found)
                        (below _ (checked.entry given (List.mem_of_getElem? found)) failed)
            | _ => exact absurd aborts (not_aborts_trErr failed)

theorem faulty_binary {k : BinaryKind} (checked : TypeChecked env p (.binary k l r t))
    (failed : evalAux env (depth + 1) p (.binary k l r t) = .error f) :
    Faulty env p (.binary k l r t) := by
  by_cases isArray : k = .array
  · subst isArray
    exact faulty_array typed aborts below checked failed
  obtain ⟨first, second⟩ := checked.operands isArray
  by_cases isAnd : k = .and
  · subst isAnd
    rw [evalAux_and_eq typed] at failed
    rcases Res.bind_eq_error.mp failed with failed | ⟨a, left, failed⟩
    · exact .call (.left typed (.inr (.inl rfl))) (below _ first failed)
    · split at failed
      · cases failed
      · rename_i holds
        rcases Res.bind_eq_error.mp failed with failed | ⟨b, _, failed⟩
        · exact .call (.andRight typed (yields_of_evalAux first left) holds) (below _ second failed)
        · cases failed
  by_cases isOr : k = .or
  · subst isOr
    rw [evalAux_or_eq typed] at failed
    rcases Res.bind_eq_error.mp failed with failed | ⟨a, left, failed⟩
    · exact .call (.left typed (.inr (.inr rfl))) (below _ first failed)
    · split at failed
      · cases failed
      · rename_i zero
        rw [not_not.mp zero] at left
        rcases Res.bind_eq_error.mp failed with failed | ⟨b, _, failed⟩
        · exact .call (.orRight typed (yields_of_evalAux first left)) (below _ second failed)
        · cases failed
  cases listed : binaryOp k with
  | none =>
      obtain ⟨args, same⟩ := evalAux_unknown_binary typed isAnd isOr isArray listed
      exact absurd aborts (not_aborts_trErr (same.symm.trans failed))
  | some op =>
      have operator := isOperator_of_binaryOp listed
      rw [evalAux_binary_eq typed listed] at failed
      rcases Res.bind_eq_error.mp failed with failed | ⟨a, left, failed⟩
      · exact .call (.left typed (.inl operator)) (below _ first failed)
      · have left := yields_of_evalAux first left
        rcases Res.bind_eq_error.mp failed with failed | ⟨b, right, failed⟩
        · exact .call (.right typed operator left) (below _ second failed)
        · have right := yields_of_evalAux second right
          rcases binaryOp_spec listed a b with ⟨_, v, _, same⟩ | ⟨undefined, _⟩
          · rw [same] at failed
            cases failed
          · exact .here (.operation typed operator left right undefined)

end

/-- A failure other than a translation error is that of a step which is not defined. -/
theorem faulty_of_evalAux (checked : TypeChecked env p e) {f : Fault}
    (failed : evalAux env depth p e = .error f) (aborts : Aborts f) : Faulty env p e := by
  induction depth generalizing e with
  | zero =>
      cases failed
      exact aborts.elim
  | succ depth ih =>
      have below (x : Expr) (checked : TypeChecked env p x)
          (failed : evalAux env depth p x = .error f) : Faulty env p x := ih checked failed
      cases typed : isNumber e.type with
      | false =>
          obtain ⟨args, rejected⟩ := evalAux_rejected typed
          exact absurd aborts (not_aborts_trErr (rejected.symm.trans failed))
      | true =>
          cases e with
          | identifier s t => exact faulty_identifier typed aborts below checked failed
          | constant v t =>
              have integral : t.isIntegral = true := checked.wellTyped.2 typed
              have read : (Expr.constant v t).getValue? = some _ := if_pos integral
              rw [evalAux_constant_eq (show isNumber t = true from typed), read] at failed
              cases failed
          | unary k x t => exact faulty_unary typed aborts below checked failed
          | binary k l r t => exact faulty_binary typed aborts below checked failed
          | inlineIf c y n t => exact faulty_inlineIf typed below checked failed
          | nary k es t =>
              by_cases isList : k = .list
              · subst isList
                exact absurd (checked.wellTyped.symm.trans typed) Bool.noConfusion
              · obtain ⟨args, same⟩ := evalAux_unknown_nary typed isList
                exact absurd aborts (not_aborts_trErr (same.symm.trans failed))
          | sync k channel => cases typed

end

end Utot
