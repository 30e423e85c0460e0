import Mathlib.Order.Filter.AtTopBot.Basic
import Mathlib.Order.Filter.Finite
import Utot.Meaning.Exact
import Utot.Run.Extension

/-!
# Which constant expressions are safe to evaluate

A faulty step stops every evaluation that reaches it, at whatever depth of the
native stack.  So an expression is evaluated exactly, or rejected, if and only if
no faulty step is reached and its value stays the same when the operands of
initialisers are taken for cells.
-/

namespace Utot

open Utap Uppaal Library Filter

/-! ## Deep enough stacks -/

/-- What holds one level deeper holds of all deeper stacks. -/
theorem eventually_succ {P Q : Nat → Prop} (step : ∀ depth, P depth → Q (depth + 1))
    (deep : ∀ᶠ depth in atTop, P depth) : ∀ᶠ depth in atTop, Q depth := by
  obtain ⟨n, holds⟩ := eventually_atTop.mp deep
  refine eventually_atTop.mpr ⟨n + 1, fun depth deeper => ?_⟩
  have later := step (depth - 1) (holds _ (by omega))
  rwa [Nat.sub_add_cancel (by omega)] at later

section

variable {env : Env} {p : Option Instance} {exact : Prop} {e x : Expr} {t : Ty} {v : Int}

theorem isNumber_of_getValue? {n : Int} (read : (Expr.constant v t).getValue? = some n) :
    isNumber t = true := by
  unfold Expr.getValue? at read
  dsimp only at read
  split at read
  · rename_i integral
    unfold isNumber
    rw [Bool.or_eq_true]
    exact .inl integral
  · cases read

theorem computeRangeBoundsWith_of_bounds {eval : Expr → Res Int} {size : Ty} {lower upper : Expr}
    {least greatest : Int} (indexType : isIndexType size = true)
    (ranged : size.getRange? = some (lower, upper)) (start : eval lower = .ok least)
    (stop : eval upper = .ok greatest) (nonempty : least ≤ greatest) :
    computeRangeBoundsWith eval size = .ok (least, greatest) := by
  obtain ⟨lower', upper', ranged', same⟩ := computeRangeBoundsWith_eq indexType
  rw [ranged] at ranged'
  cases ranged'
  rw [same, start]
  change (eval upper >>= _) = _
  rw [stop]
  exact if_neg (Int.not_lt.mpr nonempty)

/-- The value of an expression is returned on every stack that is deep enough. -/
theorem eventually_evalAux (value : Yields env p exact e v) :
    ∀ᶠ depth in atTop, evalAux env depth p e = .ok v := by
  induction value with
  | constant read =>
      refine eventually_succ (P := fun _ => True) (fun depth _ => ?_) (Eventually.of_forall fun _ => trivial)
      rw [evalAux_constant_eq (isNumber_of_getValue? read), read]
      rfl
  | initialised typed constant given _ _ ih =>
      exact eventually_succ (fun _ same => (evalAux_initialised_eq typed constant given).trans same) ih
  | bound typed constant plain given _ _ ih =>
      exact eventually_succ (fun _ same => (evalAux_bound_eq typed constant plain given).trans same) ih
  | not typed _ ih =>
      refine eventually_succ (fun depth same => ?_) ih
      rw [evalAux_not_eq typed, same]
      rfl
  | unaryMinus typed _ fits ih =>
      refine eventually_succ (fun depth same => ?_) ih
      rw [evalAux_unaryMinus_eq typed, same]
      exact checkedInt_of_isInt fits
  | @binary k l r t a b v typed _ _ result defined ihl ihr =>
      obtain ⟨op, listed⟩ := binaryOp_of_operate result
      refine eventually_succ (fun depth both => ?_) (ihl.and ihr)
      rw [evalAux_binary_eq typed listed, both.1]
      change (evalAux env depth p r >>= _) = _
      rw [both.2]
      rcases binaryOp_spec listed a b with ⟨_, w, result', same⟩ | ⟨undefined, _⟩
      · rw [result] at result'
        cases result'
        exact same
      · exact absurd defined undefined
  | andFalse typed _ ih =>
      refine eventually_succ (fun depth same => ?_) ih
      rw [evalAux_and_eq typed, same]
      rfl
  | @andTrue l r t a b typed _ holds _ ihl ihr =>
      refine eventually_succ (fun depth both => ?_) (ihl.and ihr)
      rw [evalAux_and_eq typed, both.1]
      refine (if_neg holds).trans ?_
      rw [both.2]
      rfl
  | @orTrue l r t a typed _ holds ih =>
      refine eventually_succ (fun depth same => ?_) ih
      rw [evalAux_or_eq typed, same]
      exact if_pos holds
  | @orFalse l r t b typed _ _ ihl ihr =>
      refine eventually_succ (fun depth both => ?_) (ihl.and ihr)
      rw [evalAux_or_eq typed, both.1]
      change (evalAux env depth p r >>= _) = _
      rw [both.2]
      rfl
  | chooseYes typed _ holds _ ihc ihv =>
      refine eventually_succ (fun depth both => ?_) (ihc.and ihv)
      rw [evalAux_inlineIf_eq typed, both.1]
      exact (if_pos holds).trans both.2
  | chooseNo typed _ _ ihc ihv =>
      refine eventually_succ (fun depth both => ?_) (ihc.and ihv)
      rw [evalAux_inlineIf_eq typed, both.1]
      exact both.2
  | cell typed _ sized indexType ranged _ _ inside given found _ _ _ ihi ihl ihu ihe =>
      refine eventually_succ (fun depth all => ?_) ((ihi.and ihl).and (ihu.and ihe))
      obtain ⟨⟨at', start⟩, stop, content⟩ := all
      rw [evalAux_array_eq typed (show Ty.getArraySize? (Expr.type (.identifier _ _)) = _ from sized), at']
      change (computeRangeBoundsWith _ _ >>= _) = _
      rw [computeRangeBoundsWith_of_bounds indexType ranged start stop (inside.1.trans inside.2)]
      refine (if_neg (not_not.mpr inside)).trans ?_
      rw [readCell_eq given found]
      exact content

/-! ## Faulty steps stop the program -/

/-- The evaluation is stopped by an assertion or by undefined behaviour. -/
def Stops {α : Type} (r : Res α) : Prop := ∃ f, r = .error f ∧ Aborts f

theorem Stops.bind {α β : Type} {r : Res α} (stops : Stops r) (g : α → Res β) : Stops (r >>= g) := by
  obtain ⟨f, rfl, aborts⟩ := stops
  exact ⟨f, rfl, aborts⟩

theorem eventually_readCell (c : Symbol) {arrayType : Ty} {i : Expr} {offset : Nat}
    (typed : isNumber t = true) (inside : AtOffset env p arrayType i offset) :
    ∀ᶠ depth in atTop, evalAux env (depth + 1) p (.binary .array (.identifier c arrayType) i t) =
      readCell env (evalAux env depth p) (.identifier c arrayType) offset := by
  obtain ⟨at', sized, indexType, ranged, start, stop, within⟩ := inside
  have all := (eventually_evalAux at').and ((eventually_evalAux start).and (eventually_evalAux stop))
  refine all.mono fun depth known => ?_
  obtain ⟨index, least, greatest⟩ := known
  have sized : (Expr.identifier c arrayType).type.getArraySize? = _ := sized
  rw [evalAux_array_eq typed sized, index]
  change (computeRangeBoundsWith _ _ >>= _) = _
  rw [computeRangeBoundsWith_of_bounds indexType ranged least greatest (within.1.trans within.2)]
  exact if_neg (not_not.mpr within)

theorem stops_of_calls (calls : Calls env p e x)
    (inside : ∀ᶠ depth in atTop, Stops (evalAux env depth p x)) :
    ∀ᶠ depth in atTop, Stops (evalAux env depth p e) := by
  cases calls with
  | operand typed kind =>
      refine eventually_succ (fun depth stops => ?_) inside
      rcases kind with rfl | rfl
      · rw [evalAux_not_eq typed]
        exact stops.bind _
      · rw [evalAux_unaryMinus_eq typed]
        exact stops.bind _
  | left typed kind =>
      refine eventually_succ (fun depth stops => ?_) inside
      rcases kind with operator | rfl | rfl
      · obtain ⟨op, listed⟩ := binaryOp_of_isOperator operator
        rw [evalAux_binary_eq typed listed]
        exact stops.bind _
      · rw [evalAux_and_eq typed]
        exact stops.bind _
      · rw [evalAux_or_eq typed]
        exact stops.bind _
  | right typed operator first =>
      obtain ⟨op, listed⟩ := binaryOp_of_isOperator operator
      refine eventually_succ (fun depth both => ?_) ((eventually_evalAux first).and inside)
      rw [evalAux_binary_eq typed listed, both.1]
      exact both.2.bind _
  | andRight typed first holds =>
      refine eventually_succ (fun depth both => ?_) ((eventually_evalAux first).and inside)
      rw [evalAux_and_eq typed, both.1]
      change Stops (if _ then _ else _)
      rw [if_neg holds]
      exact both.2.bind _
  | orRight typed first =>
      refine eventually_succ (fun depth both => ?_) ((eventually_evalAux first).and inside)
      rw [evalAux_or_eq typed, both.1]
      exact both.2.bind _
  | cond typed =>
      refine eventually_succ (fun depth stops => ?_) inside
      rw [evalAux_inlineIf_eq typed]
      exact stops.bind _
  | yes typed first holds =>
      refine eventually_succ (fun depth both => ?_) ((eventually_evalAux first).and inside)
      rw [evalAux_inlineIf_eq typed, both.1]
      change Stops (if _ then _ else _)
      rw [if_pos holds]
      exact both.2
  | no typed first =>
      refine eventually_succ (fun depth both => ?_) ((eventually_evalAux first).and inside)
      rw [evalAux_inlineIf_eq typed, both.1]
      exact both.2
  | initialiser typed constant given =>
      refine eventually_succ (fun depth stops => ?_) inside
      rw [evalAux_initialised_eq typed constant given]
      exact stops
  | argument typed constant plain given =>
      refine eventually_succ (fun depth stops => ?_) inside
      rw [evalAux_bound_eq typed constant plain given]
      exact stops
  | index typed sized =>
      refine eventually_succ (fun depth stops => ?_) inside
      rw [evalAux_array_eq typed sized]
      exact stops.bind _
  | lower typed at' sized indexType ranged =>
      obtain ⟨lower, upper, ranged', same⟩ := computeRangeBoundsWith_eq indexType
      rw [ranged] at ranged'
      cases ranged'
      refine eventually_succ (fun depth both => ?_) ((eventually_evalAux at').and inside)
      rw [evalAux_array_eq typed sized, both.1]
      change Stops (computeRangeBoundsWith _ _ >>= _)
      rw [same]
      exact (both.2.bind _).bind _
  | upper typed at' sized indexType ranged start =>
      obtain ⟨lower, upper, ranged', same⟩ := computeRangeBoundsWith_eq indexType
      rw [ranged] at ranged'
      cases ranged'
      refine eventually_succ (fun depth all => ?_)
        (((eventually_evalAux at').and (eventually_evalAux start)).and inside)
      rw [evalAux_array_eq typed sized, all.1.1]
      change Stops (computeRangeBoundsWith _ _ >>= _)
      rw [same, all.1.2]
      exact (all.2.bind _).bind _
  | @entry s _ _ _ _ _ _ typed offset given found =>
      refine eventually_succ (fun depth both => ?_) ((eventually_readCell s typed offset).and inside)
      rw [both.1, readCell_eq given found]
      exact both.2

theorem stops_of_breaks (breaks : Breaks env p e) :
    ∀ᶠ depth in atTop, Stops (evalAux env depth p e) := by
  cases breaks with
  | @operation k l r t a b typed operator left right undefined =>
      obtain ⟨op, listed⟩ := binaryOp_of_isOperator operator
      refine eventually_succ (fun depth both => ?_)
        ((eventually_evalAux left).and (eventually_evalAux right))
      rw [evalAux_binary_eq typed listed, both.1]
      change Stops (evalAux env depth p r >>= _)
      rw [both.2]
      rcases binaryOp_spec listed a b with ⟨defined, _⟩ | ⟨_, what, failed⟩
      · exact absurd defined undefined
      · exact ⟨_, failed, trivial⟩
  | negation typed operand undefined =>
      refine eventually_succ (fun depth same => ?_) (eventually_evalAux operand)
      rw [evalAux_unaryMinus_eq typed, same]
      exact ⟨_, checkedInt_of_not_isInt undefined, trivial⟩
  | indexType typed at' sized undefined =>
      refine eventually_succ (fun depth same => ?_) (eventually_evalAux at')
      obtain ⟨what, failed⟩ := computeRangeBoundsWith_assertion undefined (evalAux env depth p)
      rw [evalAux_array_eq typed sized, same]
      change Stops (computeRangeBoundsWith _ _ >>= _)
      rw [failed]
      exact ⟨_, rfl, trivial⟩
  | @noData s _ _ _ _ typed inside undefined =>
      refine eventually_succ (fun depth same => ?_) (eventually_readCell s typed inside)
      rw [same, readCell, undefined]
      exact ⟨_, rfl, trivial⟩
  | @noEntry s i init arrayType t offset typed inside given undefined =>
      refine eventually_succ (fun depth same => ?_) (eventually_readCell s typed inside)
      obtain ⟨var, data, written⟩ := Option.bind_eq_some_iff.mp given
      rw [same, readCell, data]
      dsimp only
      rw [written]
      change Stops (orAssert _ init.subs[offset]? >>= _)
      rw [undefined]
      exact ⟨_, rfl, trivial⟩

/-- An expression whose evaluation reaches a faulty step is not evaluated on any
stack that is deep enough. -/
theorem stops_of_faulty (faulty : Faulty env p e) :
    ∀ᶠ depth in atTop, Stops (evalAux env depth p e) := by
  obtain ⟨x, reached, breaks⟩ := faulty
  induction reached using Relation.ReflTransGen.head_induction_on with
  | refl => exact stops_of_breaks breaks
  | head calls _ ih => exact stops_of_calls calls ih

/-! ## The evaluator returns -/

/-- The native stack is deep enough for the computation. -/
abbrev Returns {α : Type} (r : Res α) : Prop := Fails (fun f => f ≠ Fault.stackOverflow) r

theorem returns_trErr {α : Type} (args : List Arg) : Returns (trErr args : Res α) :=
  Fails.raise Fault.noConfusion

theorem returns_of_rejected {α : Type} {r : Res α} (rejected : ∃ args, r = trErr args) : Returns r := by
  obtain ⟨args, rfl⟩ := rejected
  exact returns_trErr args

theorem returns_checkedInt (n : Int) : Returns (checkedInt n) :=
  Fails.branch (Fails.ret _) (Fails.raise Fault.noConfusion)

theorem returns_bounds {eval : Expr → Res Int} {size : Ty}
    (evals : ∀ lower upper, size.getRange? = some (lower, upper) →
      Returns (eval lower) ∧ Returns (eval upper)) : Returns (computeRangeBoundsWith eval size) := by
  cases indexType : isIndexType size with
  | false =>
      obtain ⟨what, failed⟩ := computeRangeBoundsWith_assertion indexType eval
      rw [failed]
      exact Fails.raise Fault.noConfusion
  | true =>
      obtain ⟨lower, upper, ranged, same⟩ := computeRangeBoundsWith_eq indexType
      obtain ⟨first, second⟩ := evals lower upper ranged
      rw [same]
      exact Fails.bind first fun _ => Fails.bind second fun _ =>
        Fails.branch (returns_trErr _) (Fails.ret _)

theorem returns_readCell {eval : Expr → Res Int} (a : Expr) (offset : Nat)
    (entries : ∀ s t init, a = .identifier s t → env.initialiser s = some init →
      ∀ x ∈ init.subs, Returns (eval x)) : Returns (readCell env eval a offset) := by
  cases a with
  | identifier s t =>
      unfold readCell
      dsimp only
      split
      · exact Fails.raise Fault.noConfusion
      · rename_i var data
        split
        · exact returns_trErr _
        · rename_i init written
          cases found : init.subs[offset]? with
          | none => exact Fails.raise Fault.noConfusion
          | some entry =>
              refine entries s t init rfl ?_ entry (List.mem_of_getElem? found)
              rw [Env.initialiser, data]
              exact written
  | _ => exact returns_trErr _

theorem returns_binary {depth : Nat} {k : BinaryKind} {l r : Expr} (typed : WellTyped (.binary k l r t))
    (number : isNumber t = true)
    (below : ∀ x ∈ callees env p (.binary k l r t), Returns (evalAux env depth p x)) :
    Returns (evalAux env (depth + 1) p (.binary k l r t)) := by
  by_cases isArray : k = .array
  · subst isArray
    obtain ⟨size, sized⟩ := Option.isSome_iff_exists.mp typed
    rw [evalAux_array_eq number sized]
    refine Fails.bind (below r (by simp [callees])) fun index => Fails.bind ?_ fun bounds =>
      Fails.branch (returns_trErr _) ?_
    · refine returns_bounds fun lower upper ranged => ?_
      exact ⟨below lower (by simp [callees, sized, ranged]), below upper (by simp [callees, sized, ranged])⟩
    · refine returns_readCell l _ fun s arrayType init same given x listed => ?_
      subst same
      exact below x (by simp [callees, given, listed])
  have listed : callees env p (.binary k l r t) = [l, r] := by
    cases k <;> first | rfl | exact absurd rfl isArray
  have first := below l (by simp [listed])
  have second := below r (by simp [listed])
  by_cases isAnd : k = .and
  · rw [isAnd, evalAux_and_eq number]
    exact Fails.bind first fun _ => Fails.branch (Fails.ret _) (Fails.bind second fun _ => Fails.ret _)
  by_cases isOr : k = .or
  · rw [isOr, evalAux_or_eq number]
    exact Fails.bind first fun _ => Fails.branch (Fails.ret _) (Fails.bind second fun _ => Fails.ret _)
  cases operator : binaryOp k with
  | none =>
      exact returns_of_rejected (evalAux_unknown_binary number isAnd isOr isArray operator)
  | some op =>
      rw [evalAux_binary_eq number operator]
      refine Fails.bind first fun a => Fails.bind second fun b => ?_
      rcases binaryOp_spec operator a b with ⟨_, v, _, same⟩ | ⟨_, what, failed⟩
      · rw [same]
        exact Fails.ret _
      · rw [failed]
        exact Fails.raise Fault.noConfusion

/-- One level of the evaluator returns where the levels below it do. -/
theorem returns_of_callees {depth : Nat} (typed : WellTyped e)
    (below : ∀ x ∈ callees env p e, Returns (evalAux env depth p x)) :
    Returns (evalAux env (depth + 1) p e) := by
  cases number : isNumber e.type with
  | false => exact returns_of_rejected (evalAux_rejected number)
  | true =>
      cases e with
      | identifier s t =>
          cases constant : (env.getType s).isConstant with
          | false =>
              exact returns_of_rejected (evalAux_unknown_identifier number (.inl constant))
          | true =>
              cases given : env.initialiser s with
              | some init =>
                  rw [evalAux_initialised_eq (show isNumber t = true from number) constant given]
                  exact below init (by simp [callees, given])
              | none =>
                  cases bound : mapped? p s with
                  | some argument =>
                      rw [evalAux_bound_eq (show isNumber t = true from number) constant given bound]
                      exact below argument (by simp [callees, bound])
                  | none =>
                      exact returns_of_rejected (evalAux_unknown_identifier number (.inr ⟨given, bound⟩))
      | constant v t =>
          have integral : t.isIntegral = true := typed.2 number
          have read : (Expr.constant v t).getValue? = some _ := if_pos integral
          rw [evalAux_constant_eq (show isNumber t = true from number), read]
          exact Fails.ret _
      | unary k x t =>
          have operand := below x List.mem_cons_self
          by_cases isNot : k = .not
          · rw [isNot, evalAux_not_eq (show isNumber t = true from number)]
            exact Fails.bind operand fun _ => Fails.ret _
          · by_cases isMinus : k = .unaryMinus
            · rw [isMinus, evalAux_unaryMinus_eq (show isNumber t = true from number)]
              exact Fails.bind operand fun _ => returns_checkedInt _
            · exact returns_of_rejected (evalAux_unknown_unary number isNot isMinus)
      | binary k l r t => exact returns_binary typed number below
      | inlineIf c y n t =>
          rw [evalAux_inlineIf_eq (show isNumber t = true from number)]
          exact Fails.bind (below c (by simp [callees, Expr.subs])) fun _ =>
            Fails.branch (below y (by simp [callees, Expr.subs])) (below n (by simp [callees, Expr.subs]))
      | nary k es t =>
          by_cases isList : k = .list
          · subst isList
            exact absurd (typed.symm.trans number) Bool.noConfusion
          · exact returns_of_rejected (evalAux_unknown_nary number isList)
      | sync k channel => cases number

/-- For a type-checked expression some depth of the native stack is enough. -/
theorem eventually_returns (checked : TypeChecked env p e) :
    ∀ᶠ depth in atTop, Returns (evalAux env depth p e) := by
  induction checked with
  | @node e typed _ ih =>
      have all : ∀ᶠ depth in atTop, ∀ x ∈ callees env p e, Returns (evalAux env depth p x) :=
        (eventually_all_finite (List.finite_toSet (callees env p e))).mpr ih
      exact eventually_succ (fun _ below => returns_of_callees typed below) all

/-! ## Exact values -/

theorem Yields.unique {w : Int} (first : Yields env p exact e v) (second : Yields env p exact e w) :
    v = w := by
  obtain ⟨depth, evaluated, same⟩ :=
    ((eventually_evalAux first).and (eventually_evalAux second)).exists
  rw [evaluated] at same
  exact Except.ok.inj same

/-- An exact value is one in which the operands of initialisers stand for cells. -/
theorem Yields.initially (value : Yields env p exact e v) : YieldsInitially env p e v := by
  induction value with
  | constant read => exact .constant read
  | initialised typed constant given _ _ ih => exact .initialised typed constant given ih False.elim
  | bound typed constant plain given _ _ ih => exact .bound typed constant plain given ih False.elim
  | not typed _ ih => exact .not typed ih
  | unaryMinus typed _ fits ih => exact .unaryMinus typed ih fits
  | binary typed _ _ result defined ihl ihr => exact .binary typed ihl ihr result defined
  | andFalse typed _ ih => exact .andFalse typed ih
  | andTrue typed _ holds _ ihl ihr => exact .andTrue typed ihl holds ihr
  | orTrue typed _ holds ih => exact .orTrue typed ih holds
  | orFalse typed _ _ ihl ihr => exact .orFalse typed ihl ihr
  | chooseYes typed _ holds _ ihc ihv => exact .chooseYes typed ihc holds ihv
  | chooseNo typed _ _ ihc ihv => exact .chooseNo typed ihc ihv
  | cell typed _ sized indexType ranged _ _ inside given found _ _ _ ihi ihl ihu ihv =>
      exact .cell typed ihi sized indexType ranged ihl ihu inside given found ihv False.elim False.elim

/-- What the evaluator returns for an expression that has a value is this value. -/
theorem Yields.eq_of_evalAux {depth : Nat} {w : Int} (value : Yields env p exact e v)
    (evaluated : evalAux env depth p e = .ok w) : w = v := by
  obtain ⟨deep, returned⟩ := eventually_atTop.mp (eventually_evalAux value)
  have later := returned (max deep depth) (le_max_left _ _)
  rw [lifts_evalAux (Extends.refl p) (le_max_right _ _) e w evaluated] at later
  exact Except.ok.inj later

/-- An exact value is the value in Uppaal. -/
theorem evaluates_of_yieldsExactly (value : YieldsExactly env p e v) : Evaluates env p e v := by
  induction value with
  | @constant v n t read =>
      change (if (t.isInteger || t.isBoolean) = true then
        some (if t.isInteger = true then v else if v = 0 then 0 else 1) else none) = some n at read
      cases isInt : t.isInteger with
      | true =>
          rw [isInt, Bool.true_or, if_pos rfl, if_pos rfl] at read
          cases read
          exact .integer isInt
      | false =>
          rw [isInt, Bool.false_or, if_neg Bool.false_ne_true] at read
          split at read
          · rename_i isBool
            have value : Evaluates env p (.constant v t) (truth (v ≠ 0)) := .boolean isBool isInt
            convert value using 1
            cases read
            by_cases zero : v = 0 <;> simp [truth, zero]
          · cases read
  | @initialised s t init v _ constant given _ kept ih =>
      have value : Evaluates env p (.identifier s t) _ := .initialised constant given ih
      rwa [kept trivial] at value
  | @bound s t argument v _ constant plain given _ kept ih =>
      have value : Evaluates env p (.identifier s t) _ := .bound constant plain given ih
      rwa [kept trivial] at value
  | not _ _ ih => exact .not ih
  | unaryMinus _ _ _ ih => exact .unaryMinus ih
  | binary _ _ _ result _ ihl ihr => exact .binary ihl ihr result
  | andFalse _ _ ih => exact .andFalse ih
  | andTrue _ _ holds _ ihl ihr => exact .andTrue ihl holds ihr
  | orTrue _ _ holds ih => exact .orTrue ih holds
  | orFalse _ _ _ ihl ihr => exact .orFalse ihl ihr
  | chooseYes _ _ holds _ ihc ihv => exact .chooseYes ihc holds ihv
  | chooseNo _ _ _ ihc ihv => exact .chooseNo ihc ihv
  | @cell s i init lower upper entry arrayType t size index least greatest v _ _ sized _ ranged _ _ inside
      given found _ entries kept ihi ihl ihu ihe =>
      obtain ⟨constant, typed, es, listType, rfl, same⟩ := entries trivial
      have cells := stripArray_of_typed same
      have list : Contains env p (.nary .list es listType) [index] (converted listType entry.type v) :=
        .entry ((getArraySize?_of_typed same).trans sized) ranged ihl ihu inside found ihe
      have array : Contains env p (.identifier s arrayType) [index] _ := .initialised constant given list
      have direct : converts (env.getType s) (Expr.nary .list es listType).type = false := by
        rw [converts, ← typed, ← cells]
        exact Bool.and_not_self _
      have leaf : converted listType entry.type v = v := by
        rw [converted, converts, cells]
        exact kept trivial
      rw [converted_eq direct, leaf] at array
      exact .cell ihi array

/-- A value rests on what Uppaal reads, unless its evaluation reaches a misread. -/
theorem Yields.exactly (value : YieldsInitially env p e v) (right : ¬ Misreads env p e) :
    YieldsExactly env p e v := by
  have below {e x : Expr} (right : ¬ Misreads env p e) (calls : Calls env p e x) : ¬ Misreads env p x :=
    fun misread => right (.call calls misread)
  induction value with
  | constant read => exact .constant read
  | initialised typed constant given value _ ih =>
      refine .initialised typed constant given (ih (below right (.initialiser typed constant given)))
        fun _ => by_contra fun other => ?_
      exact right (.here (.initialiser typed constant given value other))
  | bound typed constant plain given value _ ih =>
      refine .bound typed constant plain given (ih (below right (.argument typed constant plain given)))
        fun _ => by_contra fun other => ?_
      exact right (.here (.argument typed constant plain given value other))
  | not typed _ ih => exact .not typed (ih (below right (.operand typed (.inl rfl))))
  | unaryMinus typed _ fits ih => exact .unaryMinus typed (ih (below right (.operand typed (.inr rfl)))) fits
  | binary typed left _ result defined ihl ihr =>
      have operator := isOperator_of_operate result
      exact .binary typed (ihl (below right (.left typed (.inl operator))))
        (ihr (below right (.right typed operator left))) result defined
  | andFalse typed _ ih => exact .andFalse typed (ih (below right (.left typed (.inr (.inl rfl)))))
  | andTrue typed left holds _ ihl ihr =>
      exact .andTrue typed (ihl (below right (.left typed (.inr (.inl rfl))))) holds
        (ihr (below right (.andRight typed left holds)))
  | orTrue typed _ holds ih => exact .orTrue typed (ih (below right (.left typed (.inr (.inr rfl))))) holds
  | orFalse typed left _ ihl ihr =>
      exact .orFalse typed (ihl (below right (.left typed (.inr (.inr rfl)))))
        (ihr (below right (.orRight typed left)))
  | chooseYes typed cond holds _ ihc ihv =>
      exact .chooseYes typed (ihc (below right (.cond typed))) holds
        (ihv (below right (.yes typed cond holds)))
  | chooseNo typed cond _ ihc ihv =>
      exact .chooseNo typed (ihc (below right (.cond typed))) (ihv (below right (.no typed cond)))
  | @cell s i init lower upper entry arrayType t size index least greatest v typed at' sized indexType ranged
      start stop inside given found value _ _ ihi ihl ihu ihe =>
      have sized' : (Expr.identifier s arrayType).type.getArraySize? = some size := sized
      have offset : AtOffset env p arrayType i (index - least).toNat :=
        .within at' sized indexType ranged start stop inside
      refine .cell typed (ihi (below right (.index typed sized'))) sized indexType ranged
        (ihl (below right (.lower typed at' sized' indexType ranged)))
        (ihu (below right (.upper typed at' sized' indexType ranged start))) inside given found
        (ihe (below right (.entry typed offset given found))) (fun _ => by_contra fun other => ?_)
        fun _ => by_contra fun other => ?_
      · exact right (.here (.operand typed offset given found other))
      · exact right (.here (.entry typed offset given found value other))

/-- Taking the operands of initialisers for cells does not change the value. -/
def ReadRightly (env : Env) (p : Option Instance) (e : Expr) : Prop :=
  ∀ v, YieldsInitially env p e v → Evaluates env p e v

theorem readRightly_of_not_misreads (right : ¬ Misreads env p e) : ReadRightly env p e :=
  fun _ value => evaluates_of_yieldsExactly (value.exactly right)

end

/-! ## Results that fit -/

theorem isInt_truth (b : Bool) : IsInt (truth b) := by
  cases b <;> exact ⟨by decide, by decide⟩

theorem isInt_toInt (w : BitVec 32) : IsInt w.toInt := by
  have bound : (2 : Int) ^ (32 - 1) = 2147483648 := by decide
  have lower := w.le_toInt
  have upper := w.toInt_lt
  rw [bound] at lower upper
  unfold IsInt intMin intMax
  omega

/-- The remainder is smaller than the divisor. -/
theorem isInt_tmod {b : Int} (a : Int) (divisor : IsInt b) (nonzero : b ≠ 0) : IsInt (a.tmod b) := by
  have size := Int.natAbs_tmod a b
  have smaller := Nat.mod_lt a.natAbs (Int.natAbs_pos.mpr nonzero)
  unfold IsInt intMin intMax at *
  omega

theorem isInt_shiftRight {a : Int} (fits : IsInt a) (n : Nat) : IsInt (a / 2 ^ n) := by
  have positive : (0 : Int) < 2 ^ n := Int.pow_pos (by decide)
  unfold IsInt at *
  rcases Int.le_total 0 a with nonneg | nonpos
  · have lower := Int.ediv_nonneg nonneg positive.le
    have upper := Int.ediv_le_self (2 ^ n) nonneg
    unfold intMin
    omega
  · have lower := Int.self_le_ediv_of_nonpos_of_nonneg nonpos positive.le
    have upper := Int.ediv_nonpos_of_nonpos_of_neg nonpos positive
    unfold intMax
    omega

theorem isInt_of_defined {k : BinaryKind} {a b v : Int} (left : IsInt a) (right : IsInt b)
    (defined : Defined k a b) (result : operate k a b = some v) : IsInt v := by
  cases k
  case div =>
    rw [operate, if_neg defined.1] at result
    cases result
    exact defined.2
  case mod =>
    rw [operate, if_neg defined.1] at result
    cases result
    exact isInt_tmod a right defined.1
  case bitRshift =>
    cases result
    exact isInt_shiftRight left _
  case min =>
    cases result
    unfold IsInt at *
    omega
  case max =>
    cases result
    unfold IsInt at *
    omega
  all_goals cases result
  all_goals first
    | exact defined
    | exact isInt_truth _
    | exact isInt_toInt _

section

variable {env : Env} {p : Option Instance} {exact : Prop} {e : Expr} {v : Int}

/-- The value of a type-checked expression fits an `int`; so do the intermediate results,
which are values of other type-checked expressions. -/
theorem Yields.isInt (checked : TypeChecked env p e) (value : Yields env p exact e v) : IsInt v := by
  induction value with
  | @constant v n t read =>
      change (if (t.isInteger || t.isBoolean) = true then
        some (if t.isInteger = true then v else if v = 0 then 0 else 1) else none) = some n at read
      have written := checked.wellTyped.1
      split at read
      · cases read
        split
        · exact written
        · split
          · exact ⟨by decide, by decide⟩
          · exact ⟨by decide, by decide⟩
      · cases read
  | initialised _ _ given _ _ ih => exact ih (checked.initialiser given)
  | bound _ _ _ given _ _ ih => exact ih (checked.argument given)
  | not => exact isInt_truth _
  | unaryMinus _ _ fits => exact fits
  | @binary k l r t a b v _ _ _ result defined ihl ihr =>
      have noArray : k ≠ .array := by
        rintro rfl
        cases result
      obtain ⟨first, second⟩ := checked.operands noArray
      exact isInt_of_defined (ihl first) (ihr second) defined result
  | andFalse => exact ⟨by decide, by decide⟩
  | andTrue => exact isInt_truth _
  | orTrue => exact ⟨by decide, by decide⟩
  | orFalse => exact isInt_truth _
  | chooseYes _ _ _ _ _ ih => exact ih (checked.callee (by simp [callees, Expr.subs]))
  | chooseNo _ _ _ _ ih => exact ih (checked.callee (by simp [callees, Expr.subs]))
  | cell _ _ _ _ _ _ _ _ given found _ _ _ _ _ _ ih =>
      exact ih (checked.entry given (List.mem_of_getElem? found))

/-! ## The evaluator -/

/-- What the evaluator should do with an expression: return its exact value by operations
that are defined on `int`, or raise a translation error. -/
def ExactOrRejected (env : Env) (p : Option Instance) (e : Expr) : Res Int → Prop
  | .ok v => YieldsInitially env p e v ∧ Evaluates env p e v
  | .error (.thrown _ _) => True
  | .error _ => False

end

/-- `int x = 1 / 0;` -/
def quotientByZero : Expr :=
  .binary .div (.constant 1 (.prim .int)) (.constant 0 (.prim .int)) (.prim .int)

theorem typeChecked_quotientByZero : TypeChecked (envOfSymbols []) none quotientByZero := by
  have number (n : Int) (fits : IsInt n) :
      TypeChecked (envOfSymbols []) none (.constant n (.prim .int)) :=
    .node ⟨fits, fun _ => rfl⟩ fun x listed => absurd listed List.not_mem_nil
  refine .node trivial fun x listed => ?_
  rcases List.mem_pair.mp listed with rfl | rfl
  · exact number 1 ⟨by decide, by decide⟩
  · exact number 0 ⟨by decide, by decide⟩

theorem faulty_quotientByZero : Faulty (envOfSymbols []) none quotientByZero :=
  .here (.operation rfl rfl (.constant rfl) (.constant rfl) fun defined => defined.1 rfl)

end Utot
