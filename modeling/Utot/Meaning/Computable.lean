import Utot.Meaning.Safety

/-!
# Expressions known at compile time

What the evaluator returns for a bound or an initialiser that is read rightly is
its value.  Two of them that `expression_t::equal` identifies
have the same value, if both have one.
-/

namespace Utot

open Utap Uppaal

/-! ## Literals and lists -/

/-- `x` is an operand of `e`, or of one of its operands. -/
inductive Inside (x : Expr) : Expr → Prop where
  | self : Inside x x
  | sub {e y : Expr} (child : y ∈ e.subs) (inside : Inside x y) : Inside x e

def isList : Expr → Bool
  | .nary .list _ _ => true
  | _ => false

/-- What the parser promises about an expression: the literals of type `bool` are
`false` and `true`, and a list is an initialiser or an entry of one. -/
structure WellParsed (e : Expr) : Prop where
  booleans : ∀ v t, Inside (.constant v t) e → t.isBoolean = true → t.isInteger = false → v = 0 ∨ v = 1
  lists : ∀ x y, Inside x e → y ∈ x.subs → isList y = true → isList x = true

section

variable {env : Env} {p : Option Instance} {depth : Nat} {e x : Expr} {indices : List Int} {v w : Int}

theorem Inside.trans {y : Expr} (first : Inside x y) (second : Inside y e) : Inside x e := by
  induction second with
  | self => exact first
  | sub child _ ih => exact .sub child ih

namespace WellParsed

theorem sub (parsed : WellParsed e) (child : x ∈ e.subs) : WellParsed x where
  booleans v t inside := parsed.booleans v t (inside.trans (.sub child .self))
  lists y z inside := parsed.lists y z (inside.trans (.sub child .self))

/-- What has a list for an operand is a list. -/
theorem operand (parsed : WellParsed e) (single : isList e = false) (child : x ∈ e.subs) :
    isList x = false := by
  by_contra list
  rw [Bool.not_eq_false] at list
  rw [parsed.lists e x .self child list] at single
  cases single

theorem constant {t : Ty} (parsed : WellParsed (.constant w t)) (value : Evaluates env p (.constant w t) v) :
    v = w := by
  cases value with
  | integer => rfl
  | boolean isBool notInt =>
      rcases parsed.booleans w t .self isBool notInt with rfl | rfl <;> rfl

end WellParsed

/-! ## Equal expressions -/

mutual

theorem equal_refl : ∀ e : Expr, e.equal e = true
  | .identifier s _ => by rw [Expr.equal, beq_self_eq_true]
  | .constant v _ => by rw [Expr.equal, beq_self_eq_true]
  | .unary k e _ => by rw [Expr.equal, beq_self_eq_true, equal_refl e]; rfl
  | .binary k l r _ => by rw [Expr.equal, beq_self_eq_true, equal_refl l, equal_refl r]; rfl
  | .inlineIf c y n _ => by rw [Expr.equal, equal_refl c, equal_refl y, equal_refl n]; rfl
  | .nary k es _ => by rw [Expr.equal, beq_self_eq_true, equalAll_refl es]; rfl
  | .sync k e => by rw [Expr.equal, beq_self_eq_true, equal_refl e]; rfl

theorem equalAll_refl : ∀ es : List Expr, Expr.equalAll es es = true
  | [] => rfl
  | e :: es => by rw [Expr.equalAll, equal_refl e, equalAll_refl es]; rfl

end

theorem equal_constant {t : Ty} (same : (Expr.constant w t).equal e = true) :
    ∃ t', e = .constant w t' := by
  cases e with
  | constant v' t' =>
      rw [Expr.equal, beq_iff_eq] at same
      exact ⟨t', by rw [same]⟩
  | _ => cases same

theorem equal_identifier {s : Symbol} {t : Ty} (same : (Expr.identifier s t).equal e = true) :
    ∃ t', e = .identifier s t' := by
  cases e with
  | identifier s' t' =>
      rw [Expr.equal, beq_iff_eq] at same
      exact ⟨t', by rw [same]⟩
  | _ => cases same

theorem equal_unary {k : UnaryKind} {t : Ty} (same : (Expr.unary k x t).equal e = true) :
    ∃ x' t', e = .unary k x' t' ∧ x.equal x' = true := by
  cases e with
  | unary k' x' t' =>
      rw [Expr.equal, Bool.and_eq_true, beq_iff_eq] at same
      exact ⟨x', t', by rw [same.1], same.2⟩
  | _ => cases same

theorem equal_binary {k : BinaryKind} {l r : Expr} {t : Ty}
    (same : (Expr.binary k l r t).equal e = true) :
    ∃ l' r' t', e = .binary k l' r' t' ∧ l.equal l' = true ∧ r.equal r' = true := by
  cases e with
  | binary k' l' r' t' =>
      rw [Expr.equal, Bool.and_eq_true, Bool.and_eq_true, beq_iff_eq] at same
      exact ⟨l', r', t', by rw [same.1.1], same.1.2, same.2⟩
  | _ => cases same

theorem equal_inlineIf {c y n : Expr} {t : Ty} (same : (Expr.inlineIf c y n t).equal e = true) :
    ∃ c' y' n' t', e = .inlineIf c' y' n' t' ∧ c.equal c' = true ∧ y.equal y' = true ∧
      n.equal n' = true := by
  cases e with
  | inlineIf c' y' n' t' =>
      rw [Expr.equal, Bool.and_eq_true, Bool.and_eq_true] at same
      exact ⟨c', y', n', t', rfl, same.1.1, same.1.2, same.2⟩
  | _ => cases same

/-- Expressions the parser library calls equal have the same cells. -/
theorem same_content (same : e.equal x = true) (parsed : WellParsed e) (parsed' : WellParsed x)
    (single : isList e = false) (value : Contains env p e indices v)
    (value' : Contains env p x indices w) : v = w := by
  induction value generalizing x w with
  | @integer n t isInt =>
      obtain ⟨t', rfl⟩ := equal_constant same
      exact (parsed'.constant value').symm
  | @boolean n t isBool notInt =>
      obtain ⟨t', rfl⟩ := equal_constant same
      have value : Evaluates env p (.constant n t) (truth (n ≠ 0)) := .boolean isBool notInt
      rw [parsed'.constant value']
      exact parsed.constant value
  | initialised constant given value _ =>
      obtain ⟨t', rfl⟩ := equal_identifier same
      exact (Contains.initialised constant given value).unique value'
  | bound constant plain given value _ =>
      obtain ⟨t', rfl⟩ := equal_identifier same
      exact (Contains.bound constant plain given value).unique value'
  | not _ ih =>
      obtain ⟨x', t', rfl, inside⟩ := equal_unary same
      have below := parsed.operand single (.head _)
      cases value' with
      | not operand => rw [ih inside (parsed.sub (.head _)) (parsed'.sub (.head _)) below operand]
  | unaryMinus _ ih =>
      obtain ⟨x', t', rfl, inside⟩ := equal_unary same
      have below := parsed.operand single (.head _)
      cases value' with
      | unaryMinus operand => rw [ih inside (parsed.sub (.head _)) (parsed'.sub (.head _)) below operand]
  | binary _ _ result ihl ihr =>
      obtain ⟨l', r', t', rfl, first, second⟩ := equal_binary same
      have left {b : Int} (value : Contains env p l' [] b) := ihl first (parsed.sub (.head _))
        (parsed'.sub (.head _)) (parsed.operand single (.head _)) value
      have right {b : Int} (value : Contains env p r' [] b) := ihr second (parsed.sub (.tail _ (.head _)))
        (parsed'.sub (.tail _ (.head _))) (parsed.operand single (.tail _ (.head _))) value
      cases value' with
      | binary left' right' result' =>
          rw [left left', right right', result'] at result
          exact (Option.some.inj result).symm
      | andFalse => cases result
      | andTrue => cases result
      | orTrue => cases result
      | orFalse => cases result
      | cell => cases result
  | andFalse _ ih =>
      obtain ⟨l', r', t', rfl, first, second⟩ := equal_binary same
      have left {b : Int} (value : Contains env p l' [] b) := ih first (parsed.sub (.head _))
        (parsed'.sub (.head _)) (parsed.operand single (.head _)) value
      cases value' with
      | binary _ _ result => cases result
      | andFalse => rfl
      | andTrue left' holds => exact absurd (left left').symm holds
  | andTrue _ holds _ ihl ihr =>
      obtain ⟨l', r', t', rfl, first, second⟩ := equal_binary same
      have left {b : Int} (value : Contains env p l' [] b) := ihl first (parsed.sub (.head _))
        (parsed'.sub (.head _)) (parsed.operand single (.head _)) value
      have right {b : Int} (value : Contains env p r' [] b) := ihr second (parsed.sub (.tail _ (.head _)))
        (parsed'.sub (.tail _ (.head _))) (parsed.operand single (.tail _ (.head _))) value
      cases value' with
      | binary _ _ result => cases result
      | andFalse left' => exact absurd (left left') holds
      | andTrue _ _ right' => rw [right right']
  | orTrue _ holds ih =>
      obtain ⟨l', r', t', rfl, first, second⟩ := equal_binary same
      have left {b : Int} (value : Contains env p l' [] b) := ih first (parsed.sub (.head _))
        (parsed'.sub (.head _)) (parsed.operand single (.head _)) value
      cases value' with
      | binary _ _ result => cases result
      | orTrue => rfl
      | orFalse left' => exact absurd (left left') holds
  | orFalse _ _ ihl ihr =>
      obtain ⟨l', r', t', rfl, first, second⟩ := equal_binary same
      have left {b : Int} (value : Contains env p l' [] b) := ihl first (parsed.sub (.head _))
        (parsed'.sub (.head _)) (parsed.operand single (.head _)) value
      have right {b : Int} (value : Contains env p r' [] b) := ihr second (parsed.sub (.tail _ (.head _)))
        (parsed'.sub (.tail _ (.head _))) (parsed.operand single (.tail _ (.head _))) value
      cases value' with
      | binary _ _ result => cases result
      | orTrue left' holds => exact absurd (left left').symm holds
      | orFalse _ right' => rw [right right']
  | chooseYes _ holds _ ihc ihv =>
      obtain ⟨c', y', n', t', rfl, first, second, _⟩ := equal_inlineIf same
      have cond {b : Int} (value : Contains env p c' [] b) := ihc first (parsed.sub (.head _))
        (parsed'.sub (.head _)) (parsed.operand single (.head _)) value
      cases value' with
      | chooseYes _ _ value' =>
          exact ihv second (parsed.sub (.tail _ (.head _))) (parsed'.sub (.tail _ (.head _)))
            (parsed.operand single (.tail _ (.head _))) value'
      | chooseNo cond' => exact absurd (cond cond') holds
  | chooseNo _ _ ihc ihv =>
      obtain ⟨c', y', n', t', rfl, first, _, third⟩ := equal_inlineIf same
      have cond {b : Int} (value : Contains env p c' [] b) := ihc first (parsed.sub (.head _))
        (parsed'.sub (.head _)) (parsed.operand single (.head _)) value
      cases value' with
      | chooseYes cond' holds => exact absurd (cond cond').symm holds
      | chooseNo _ value' =>
          exact ihv third (parsed.sub (.tail _ (.tail _ (.head _))))
            (parsed'.sub (.tail _ (.tail _ (.head _))))
            (parsed.operand single (.tail _ (.tail _ (.head _)))) value'
  | cell _ _ ihi ihv =>
      obtain ⟨a', i', t', rfl, first, second⟩ := equal_binary same
      have at' {b : Int} (value : Contains env p i' [] b) := ihi second (parsed.sub (.tail _ (.head _)))
        (parsed'.sub (.tail _ (.head _))) (parsed.operand single (.tail _ (.head _))) value
      cases value' with
      | binary _ _ result => cases result
      | cell at'' value' =>
          rw [← at' at''] at value'
          exact ihv first (parsed.sub (.head _)) (parsed'.sub (.head _)) (parsed.operand single (.head _)) value'
  | entry => cases single

/-- Expressions the parser library calls equal have one value. -/
theorem same_value (same : e.equal x = true) (parsed : WellParsed e) (parsed' : WellParsed x)
    (value : Evaluates env p e v) (value' : Evaluates env p x w) : v = w := by
  refine same_content same parsed parsed' ?_ value value'
  cases e with
  | nary k es t => cases value
  | _ => rfl

end

/-! ## Bounds and initialisers -/

/-- What the parser and the type checker promise about a bound or an initialiser. -/
structure Computable (env : Env) (p : Option Instance) (e : Expr) : Prop where
  parsed : WellParsed e
  checked : TypeChecked env p e

/-- A bound or an initialiser that is read rightly. -/
structure Knowable (env : Env) (p : Option Instance) (e : Expr) : Prop extends Computable env p e where
  right : ReadRightly env p e

section

variable {env : Env} {p : Option Instance} {depth : Nat} {e x : Expr} {v : Int}

/-- The entries of a list are no less accepted than the list. -/
theorem Computable.entry {es : List Expr} {t : Ty} (computable : Computable env p (.nary .list es t))
    (listed : x ∈ es) : Computable env p x :=
  ⟨computable.parsed.sub listed, computable.checked.callee listed⟩

theorem Knowable.evaluates (known : Knowable env p e) (evaluated : evalAux env depth p e = .ok v) :
    Evaluates env p e v :=
  known.right v (yields_of_evalAux known.checked evaluated)

/-- A number written down is known. -/
theorem knowable_constant {n : Int} (fits : IsInt n) : Knowable env p (.constant n (.prim .int)) where
  parsed :=
    { booleans := fun v t inside isBool => by
        cases inside with
        | self => cases isBool
        | sub child => cases child
      lists := fun x y inside child => by
        cases inside with
        | self => cases child
        | sub child => cases child }
  checked := .node ⟨fits, fun _ => rfl⟩ fun x listed => absurd listed List.not_mem_nil
  right := readRightly_of_not_misreads (not_misreads_constant n _)

end

end Utot
