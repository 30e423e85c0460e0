import Utot.Translate.Constants
import Utot.Uppaal.Values

/-!
# One level of the evaluator

What `eval_integer_constant` has evaluated when it returns a number, one lemma for
each kind of expression.
-/

namespace Utot

open Utap Uppaal

/-! ## Native operators -/

section

variable {a b n v w : Int}

theorem checkedInt_eq_ok (checked : checkedInt n = .ok w) : w = n := by
  unfold checkedInt at checked
  split at checked
  · cases checked
    rfl
  · cases checked

theorem native_min : (if a < b then a else b) = min a b := by
  rw [min_def]
  split <;> split <;> omega

theorem native_max : (if a < b then b else a) = max a b := by
  rw [max_def]
  split <;> split <;> omega

theorem binaryOp_of_operate {k : BinaryKind} (value : operate k a b = some v) :
    ∃ op, binaryOp k = some op := by
  cases k <;> first | exact ⟨_, rfl⟩ | cases value

end

/-! ## Types of indices -/

theorem getRange?_stripLabelsAndConst (t : Ty) :
    (stripLabelsAndConst t).getRange? = t.getRange? := by
  fun_induction stripLabelsAndConst t with
  | case1 _ t ih => exact ih
  | case2 t ih => exact ih
  | case3 t => rfl

/-- The lower bound `compute_range_bounds` stores is the first bound of the type. -/
theorem lower_of_computeRangeBoundsWith {eval : Expr → Res Int} {size : Ty} {bounds : Int × Int}
    {lower upper : Expr} (computed : computeRangeBoundsWith eval size = .ok bounds)
    (ranged : size.getRange? = some (lower, upper)) : eval lower = .ok bounds.1 := by
  obtain ⟨_, _, computed⟩ := Res.bind_eq_ok.mp computed
  obtain ⟨_, _, computed⟩ := Res.bind_eq_ok.mp computed
  obtain ⟨_, _, computed⟩ := Res.bind_eq_ok.mp computed
  rw [getRange?_stripLabelsAndConst, ranged] at computed
  obtain ⟨_, found, computed⟩ := Res.bind_eq_ok.mp computed
  cases found
  obtain ⟨min, first, computed⟩ := Res.bind_eq_ok.mp computed
  obtain ⟨max, _, computed⟩ := Res.bind_eq_ok.mp computed
  split at computed
  · cases computed
  · cases computed
    exact first

/-- The bounds of an index are those of a range. -/
theorem getRange?_of_computeRangeBoundsWith {eval : Expr → Res Int} {size : Ty} {bounds : Int × Int}
    (computed : computeRangeBoundsWith eval size = .ok bounds) :
    ∃ lower upper, size.getRange? = some (lower, upper) ∧ eval lower = .ok bounds.1 := by
  have whole := computed
  obtain ⟨_, _, computed⟩ := Res.bind_eq_ok.mp computed
  obtain ⟨_, _, computed⟩ := Res.bind_eq_ok.mp computed
  obtain ⟨_, _, computed⟩ := Res.bind_eq_ok.mp computed
  obtain ⟨⟨lower, upper⟩, found, _⟩ := Res.bind_eq_ok.mp computed
  rw [getRange?_stripLabelsAndConst] at found
  have ranged := orAssert_eq_ok.mp found
  exact ⟨lower, upper, ranged, lower_of_computeRangeBoundsWith whole ranged⟩

/-! ## Operands -/

section

variable {env : Env} {p : Option Instance} {depth : Nat} {e l r x : Expr} {t : Ty} {v w : Int}

/-- Operators with two evaluated operands. -/
theorem evalAux_binary {k : BinaryKind} {op : Int → Int → Res Int} (listed : binaryOp k = some op)
    (evaluated : evalAux env (depth + 1) p (.binary k l r t) = .ok w) :
    ∃ a b, evalAux env depth p l = .ok a ∧ evalAux env depth p r = .ok b ∧ op a b = .ok w := by
  unfold evalAux at evaluated
  split at evaluated
  · cases evaluated
  · have computed : (evalAux env depth p l >>= fun a => evalAux env depth p r >>= fun b => op a b)
        = .ok w := by
      cases k <;> cases listed <;> exact evaluated
    obtain ⟨a, left, computed⟩ := Res.bind_eq_ok.mp computed
    obtain ⟨b, right, computed⟩ := Res.bind_eq_ok.mp computed
    exact ⟨a, b, left, right, computed⟩

/-- `&&` and `||` look at the second operand only if the first one leaves the
result open. -/
theorem evalAux_and (evaluated : evalAux env (depth + 1) p (.binary .and l r t) = .ok w) :
    ∃ a, evalAux env depth p l = .ok a ∧
      (a = 0 ∧ w = 0 ∨ a ≠ 0 ∧ ∃ b, evalAux env depth p r = .ok b ∧ w = truth (b ≠ 0)) := by
  unfold evalAux at evaluated
  split at evaluated
  · cases evaluated
  · obtain ⟨a, left, evaluated⟩ := Res.bind_eq_ok.mp evaluated
    split at evaluated
    · rename_i zero
      cases evaluated
      exact ⟨a, left, .inl ⟨zero, rfl⟩⟩
    · rename_i nonzero
      obtain ⟨b, right, evaluated⟩ := Res.bind_eq_ok.mp evaluated
      cases evaluated
      exact ⟨a, left, .inr ⟨nonzero, b, right, rfl⟩⟩

theorem evalAux_or (evaluated : evalAux env (depth + 1) p (.binary .or l r t) = .ok w) :
    ∃ a, evalAux env depth p l = .ok a ∧
      (a ≠ 0 ∧ w = 1 ∨ a = 0 ∧ ∃ b, evalAux env depth p r = .ok b ∧ w = truth (b ≠ 0)) := by
  unfold evalAux at evaluated
  split at evaluated
  · cases evaluated
  · obtain ⟨a, left, evaluated⟩ := Res.bind_eq_ok.mp evaluated
    split at evaluated
    · rename_i nonzero
      cases evaluated
      exact ⟨a, left, .inl ⟨nonzero, rfl⟩⟩
    · rename_i zero
      obtain ⟨b, right, evaluated⟩ := Res.bind_eq_ok.mp evaluated
      cases evaluated
      exact ⟨a, left, .inr ⟨not_not.mp zero, b, right, rfl⟩⟩

theorem evalAux_not (evaluated : evalAux env (depth + 1) p (.unary .not x t) = .ok w) :
    ∃ a, evalAux env depth p x = .ok a ∧ w = truth (a = 0) := by
  unfold evalAux at evaluated
  split at evaluated
  · cases evaluated
  · obtain ⟨a, operand, evaluated⟩ := Res.bind_eq_ok.mp evaluated
    cases evaluated
    exact ⟨a, operand, rfl⟩

theorem evalAux_unaryMinus (evaluated : evalAux env (depth + 1) p (.unary .unaryMinus x t) = .ok w) :
    ∃ a, evalAux env depth p x = .ok a ∧ w = -a := by
  unfold evalAux at evaluated
  split at evaluated
  · cases evaluated
  · obtain ⟨a, operand, evaluated⟩ := Res.bind_eq_ok.mp evaluated
    exact ⟨a, operand, checkedInt_eq_ok evaluated⟩

theorem evalAux_inlineIf {y n : Expr}
    (evaluated : evalAux env (depth + 1) p (.inlineIf x y n t) = .ok w) :
    ∃ a, evalAux env depth p x = .ok a ∧
      (a ≠ 0 ∧ evalAux env depth p y = .ok w ∨ a = 0 ∧ evalAux env depth p n = .ok w) := by
  unfold evalAux at evaluated
  split at evaluated
  · cases evaluated
  · obtain ⟨a, cond, evaluated⟩ := Res.bind_eq_ok.mp evaluated
    split at evaluated
    · rename_i nonzero
      exact ⟨a, cond, .inl ⟨nonzero, evaluated⟩⟩
    · rename_i zero
      exact ⟨a, cond, .inr ⟨not_not.mp zero, evaluated⟩⟩

theorem evalAux_constant (evaluated : evalAux env (depth + 1) p (.constant v t) = .ok w) :
    (Expr.constant v t).getValue? = some w := by
  unfold evalAux at evaluated
  split at evaluated
  · cases evaluated
  · cases found : (Expr.constant v t).getValue? with
    | none =>
        simp only [found] at evaluated
        cases evaluated
    | some value =>
        simp only [found] at evaluated
        cases evaluated
        rfl

/-- A constant has its initialiser evaluated, a parameter its argument. -/
theorem evalAux_identifier {s : Symbol}
    (evaluated : evalAux env (depth + 1) p (.identifier s t) = .ok w) :
    (∃ init, env.initialiser s = some init ∧ evalAux env depth p init = .ok w) ∨
      env.initialiser s = none ∧ ∃ argument, mapped? p s = some argument ∧
        evalAux env depth p argument = .ok w := by
  unfold evalAux at evaluated
  split at evaluated
  · cases evaluated
  · dsimp only at evaluated
    split at evaluated
    · cases evaluated
    · split at evaluated
      · rename_i init given
        exact .inl ⟨init, given, evaluated⟩
      · rename_i plain
        split at evaluated
        · rename_i argument given
          exact .inr ⟨plain, argument, given, evaluated⟩
        · cases evaluated

/-- A cell is one of an array that is written as an identifier; the entry of the
initialiser at its offset is evaluated. -/
theorem evalAux_array {a i : Expr} (evaluated : evalAux env (depth + 1) p (.binary .array a i t) = .ok w) :
    ∃ s arrayType index size bounds init entry, a = .identifier s arrayType ∧
      evalAux env depth p i = .ok index ∧ arrayType.getArraySize? = some size ∧
      computeRangeBoundsWith (evalAux env depth p) size = .ok bounds ∧
      (bounds.1 ≤ index ∧ index ≤ bounds.2) ∧ env.initialiser s = some init ∧
      init.subs[(index - bounds.1).toNat]? = some entry ∧ evalAux env depth p entry = .ok w := by
  unfold evalAux at evaluated
  split at evaluated
  · cases evaluated
  · obtain ⟨index, at', evaluated⟩ := Res.bind_eq_ok.mp evaluated
    obtain ⟨_, _, evaluated⟩ := Res.bind_eq_ok.mp evaluated
    obtain ⟨size, sized, evaluated⟩ := Res.bind_eq_ok.mp evaluated
    obtain ⟨bounds, ranged, evaluated⟩ := Res.bind_eq_ok.mp evaluated
    dsimp only at evaluated
    split at evaluated
    · cases evaluated
    · rename_i inside
      cases a with
      | identifier s arrayType =>
          dsimp only at evaluated
          split at evaluated
          · cases evaluated
          · rename_i var data
            split at evaluated
            · cases evaluated
            · rename_i init given
              obtain ⟨entry, found, evaluated⟩ := Res.bind_eq_ok.mp evaluated
              have initialised : env.initialiser s = some init := by
                rw [Env.initialiser, data]
                exact given
              exact ⟨s, arrayType, index, size, bounds, init, entry, rfl, at', orAssert_eq_ok.mp sized,
                ranged, not_not.mp inside, initialised, orAssert_eq_ok.mp found, evaluated⟩
      | _ => cases evaluated

theorem depth_of_evalAux (evaluated : evalAux env depth p e = .ok w) : ∃ d, depth = d + 1 := by
  cases depth with
  | zero => cases evaluated
  | succ d => exact ⟨d, rfl⟩

/-! ## The kinds it accepts -/

theorem evalAux_typed (evaluated : evalAux env (depth + 1) p e = .ok w) :
    (e.type.isInteger || e.type.isBoolean || e.type.isScalar) = true := by
  unfold evalAux at evaluated
  split at evaluated
  · cases evaluated
  · rename_i typed
    rwa [Bool.not_eq_true, Bool.not_eq_false'] at typed

theorem evalAux_isConstant {s : Symbol}
    (evaluated : evalAux env (depth + 1) p (.identifier s t) = .ok w) :
    (env.getType s).isConstant = true := by
  unfold evalAux at evaluated
  split at evaluated
  · cases evaluated
  · dsimp only at evaluated
    split at evaluated
    · cases evaluated
    · rename_i constant
      simpa using constant

/-- Every other operator is rejected. -/
theorem evalAux_binary_kind {k : BinaryKind}
    (evaluated : evalAux env (depth + 1) p (.binary k l r t) = .ok w) :
    (∃ op, binaryOp k = some op) ∨ k = .and ∨ k = .or ∨ k = .array := by
  unfold evalAux at evaluated
  split at evaluated
  · cases evaluated
  · cases k
    case and => exact .inr (.inl rfl)
    case or => exact .inr (.inr (.inl rfl))
    case array => exact .inr (.inr (.inr rfl))
    all_goals first | exact .inl ⟨_, rfl⟩ | cases evaluated

theorem evalAux_unary_kind {k : UnaryKind}
    (evaluated : evalAux env (depth + 1) p (.unary k x t) = .ok w) : k = .not ∨ k = .unaryMinus := by
  unfold evalAux at evaluated
  split at evaluated
  · cases evaluated
  · cases k <;> first | exact .inl rfl | exact .inr rfl | cases evaluated

theorem evalAux_nary_kind {k : NaryKind} {es : List Expr}
    (evaluated : evalAux env (depth + 1) p (.nary k es t) = .ok w) : k = .list := by
  unfold evalAux at evaluated
  split at evaluated
  · cases evaluated
  · cases k <;> first | rfl | cases evaluated

end

end Utot
