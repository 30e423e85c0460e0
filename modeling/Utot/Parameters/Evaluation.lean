import Utot.Meaning.Exact
import Utot.Meaning.Folding
import Utot.Run.Extension
import Utot.Utap.Substitution

/-!
# Evaluating what has been substituted

Whatever the evaluator returns with a mapping it returns without one, when the
arguments have been put in for the parameters, exactly if it has met no parameter
in the initialiser of an array that is no constant.
-/

namespace Utot

open Utap Uppaal Library

/-! ## Symbols after a substitution -/

/-- Another type at the outermost node. -/
def Utap.Expr.substType (σ : Bindings) : Expr → Expr
  | .identifier s t => .identifier s (t.subst σ)
  | .constant v t => .constant v (t.subst σ)
  | .unary k x t => .unary k x (t.subst σ)
  | .binary k l r t => .binary k l r (t.subst σ)
  | .inlineIf c y n t => .inlineIf c y n (t.subst σ)
  | .nary k es t => .nary k es (t.subst σ)
  | .sync k channel => .sync k channel

/-- The data of a symbol: arguments are put into ranges and into the initialisers of
constants. -/
def Utap.SymbolData.subst (σ : Bindings) (d : SymbolData) : SymbolData where
  name := d.name
  type := d.type.subst σ
  hasParent := d.hasParent
  data := d.data.map fun v => ⟨v.expr.map fun init =>
    if d.type.isConstant then init.subst σ else init.substType σ⟩

def Utap.Env.subst (σ : Bindings) (env : Env) : Env where
  symbols s := (env.symbols s).subst σ
  verboseLevel := env.verboseLevel
  stack := env.stack

theorem substType_substType {σ τ : Bindings} (e : Expr) :
    (e.substType σ).substType τ = e.substType (σ.andThen τ) := by
  cases e with
  | sync k channel => rfl
  | _ => simp only [Expr.substType, Ty.subst_subst]

theorem Utap.Env.subst_subst {σ τ : Bindings} (env : Env) :
    (env.subst σ).subst τ = env.subst (σ.andThen τ) := by
  have same (d : SymbolData) : (d.subst σ).subst τ = d.subst (σ.andThen τ) := by
    unfold SymbolData.subst
    simp only [Ty.subst_subst, Ty.isConstant_subst, Option.map_map, SymbolData.mk.injEq, true_and]
    refine congrArg (Option.map · d.data) (funext fun v => ?_)
    dsimp only [Function.comp]
    cases v.expr with
    | none => rfl
    | some init =>
        dsimp only [Option.map]
        split
        · rw [Expr.subst_subst]
        · rw [substType_substType]
  exact congrArg (Env.mk · env.verboseLevel env.stack) (funext fun s => same (env.symbols s))

theorem Utap.Env.subst_none (env : Env) : (env.subst fun _ => none) = env := by
  have type (e : Expr) : (e.substType fun _ => none) = e := by
    cases e with
    | sync k channel => rfl
    | _ => simp only [Expr.substType, Ty.subst_none]
  have same (d : SymbolData) : (d.subst fun _ => none) = d := by
    obtain ⟨name, t, hasParent, data⟩ := d
    unfold SymbolData.subst
    simp only [Ty.subst_none, Expr.subst_none, type, ite_self, SymbolData.mk.injEq, true_and]
    cases data with
    | none => rfl
    | some v =>
        obtain ⟨init⟩ := v
        cases init <;> rfl
  exact congrArg (Env.mk · env.verboseLevel env.stack) (funext fun s => same (env.symbols s))

section

variable {env : Env} {σ : Bindings} {s : Symbol}

theorem isConstant_subst : ((env.subst σ).getType s).isConstant = (env.getType s).isConstant :=
  (env.getType s).isConstant_subst

theorem initialiser_subst : (env.subst σ).initialiser s = (env.initialiser s).map fun init =>
    if (env.getType s).isConstant then init.subst σ else init.substType σ := by
  change ((env.symbols s).data.map _).bind Variable.expr = ((env.symbols s).data.bind Variable.expr).map _
  cases (env.symbols s).data <;> rfl

theorem initialiser_constant {init : Expr} (constant : (env.getType s).isConstant = true)
    (given : env.initialiser s = some init) : (env.subst σ).initialiser s = some (init.subst σ) := by
  rw [initialiser_subst, given, Option.map_some, if_pos constant]

theorem subs_substType (e : Expr) : (e.substType σ).subs = e.subs := by
  cases e <;> rfl

theorem type_substType (e : Expr) : (e.substType σ).type = e.type.subst σ := by
  cases e <;> rfl

/-! ## Types -/

theorem isNumber_subst (t : Ty) : isNumber (t.subst σ) = isNumber t := by
  simp only [isNumber, Ty.isInteger, Ty.isBoolean, Ty.isScalar, Ty.is_subst]

theorem stripLabelsAndConst_subst (t : Ty) :
    stripLabelsAndConst (t.subst σ) = (stripLabelsAndConst t).subst σ := by
  fun_induction stripLabelsAndConst t with
  | case1 name t ih => exact ih
  | case2 t ih => exact ih
  | case3 t noLabel noConst =>
      cases t with
      | label name t => exact absurd rfl (noLabel name t)
      | pre k t => cases k <;> first | rfl | exact absurd rfl (noConst t)
      | _ => rfl

theorem isIndexType_subst (size : Ty) : isIndexType (size.subst σ) = isIndexType size := by
  unfold isIndexType
  dsimp only
  rw [stripLabelsAndConst_subst, Ty.isRange_subst, Ty.first?_subst, Ty.getRange?_subst]
  cases (stripLabelsAndConst size).first? with
  | none => simp
  | some base => simp

theorem getValue?_subst (v : Int) (t : Ty) :
    (Expr.constant v (t.subst σ)).getValue? = (Expr.constant v t).getValue? := by
  have integer : (t.subst σ).isInteger = t.isInteger := t.is_subst _
  have integral : (t.subst σ).isIntegral = t.isIntegral := by
    rw [Ty.isIntegral, Ty.isIntegral, integer, Ty.isBoolean, Ty.isBoolean, Ty.is_subst]
  rw [Expr.getValue?, Expr.getValue?, integer, integral]

/-- The bounds of an index are computed from the bounds that have been put in. -/
theorem lifts_bounds_subst {eval eval' : Expr → Res Int} {size : Ty}
    (bounds : ∀ lower upper, size.getRange? = some (lower, upper) →
      Lifts (eval lower) (eval' (lower.subst σ)) ∧ Lifts (eval upper) (eval' (upper.subst σ))) :
    Lifts (computeRangeBoundsWith eval size) (computeRangeBoundsWith eval' (size.subst σ)) := by
  cases indexType : isIndexType size with
  | false =>
      obtain ⟨what, failed⟩ := computeRangeBoundsWith_assertion indexType eval
      rw [failed]
      exact Lifts.error _ _
  | true =>
      obtain ⟨lower, upper, ranged, same⟩ := computeRangeBoundsWith_eq indexType
      obtain ⟨lower', upper', ranged', same'⟩ :=
        computeRangeBoundsWith_eq ((isIndexType_subst (σ := σ) size).trans indexType)
      rw [Ty.getRange?_subst, ranged] at ranged'
      cases ranged'
      obtain ⟨first, second⟩ := bounds lower upper ranged
      rw [same, same']
      exact Lifts.bind first fun _ _ => Lifts.bind second fun _ _ =>
        Lifts.branch (fun _ => Lifts.error _ _) fun _ => Lifts.refl _

end

/-! ## What an evaluation may meet -/

/-- `x` is an operand of `e`, its argument or its initialiser, or a bound of its index. -/
inductive Next (env : Env) (p : Option Instance) (x : Expr) : Expr → Prop where
  | sub {e : Expr} (child : x ∈ e.subs) : Next env p x e
  | argument {s : Symbol} {t : Ty} (bound : mapped? p s = some x) : Next env p x (.identifier s t)
  | initialiser {s : Symbol} {t : Ty} (given : env.initialiser s = some x) :
      Next env p x (.identifier s t)
  | lower {e upper : Expr} {size : Ty} (sized : e.type.getArraySize? = some size)
      (ranged : size.getRange? = some (x, upper)) : Next env p x e
  | upper {e lower : Expr} {size : Ty} (sized : e.type.getArraySize? = some size)
      (ranged : size.getRange? = some (lower, x)) : Next env p x e

/-- `x` is written in `e`, in an argument or an initialiser `e` refers to, or in the
bounds of an index. -/
abbrev Meets (env : Env) (p : Option Instance) : Expr → Expr → Prop :=
  Relation.ReflTransGen (Next env p)

/-- The evaluator returns `v` on a stack that is deep enough. -/
def Computes (env : Env) (p : Option Instance) (e : Expr) (v : Int) : Prop :=
  ∃ depth, evalAux env depth p e = .ok v

/-- `σ`, or nothing at all. -/
def Utap.Bindings.onlyIf (σ : Bindings) (replaced : Bool) : Bindings := if replaced then σ else fun _ => none

/-- The evaluation of `e` rests on a parameter or a select variable for which nothing has
been put in.  Entries of an array that is no constant keep theirs, and so does `e` itself
unless it is `replaced`. -/
inductive RestsOnParameter (env : Env) (p : Option Instance) : Bool → Expr → Prop where
  | parameter {s : Symbol} {t : Ty} {argument : Expr} (bound : mapped? p s = some argument) :
      RestsOnParameter env p false (.identifier s t)
  | argument {s : Symbol} {t : Ty} {argument : Expr} (bound : mapped? p s = some argument)
      (later : RestsOnParameter env p true argument) : RestsOnParameter env p true (.identifier s t)
  | initialiser {replaced : Bool} {s : Symbol} {t : Ty} {init : Expr}
      (given : env.initialiser s = some init) (later : RestsOnParameter env p true init) :
      RestsOnParameter env p replaced (.identifier s t)
  | entry {replaced : Bool} {s : Symbol} {i init lower upper entry : Expr} {arrayType t size : Ty}
      {index least : Int} (given : env.initialiser s = some init) (at' : Computes env p i index)
      (sized : arrayType.getArraySize? = some size) (ranged : size.getRange? = some (lower, upper))
      (start : Computes env p lower least) (found : init.subs[(index - least).toNat]? = some entry)
      (later : RestsOnParameter env p (env.getType s).isConstant entry) :
      RestsOnParameter env p replaced (.binary .array (.identifier s arrayType) i t)
  | index {replaced : Bool} {a i : Expr} {t : Ty} (inside : RestsOnParameter env p replaced i) :
      RestsOnParameter env p replaced (.binary .array a i t)
  | lower {replaced : Bool} {a i lower upper : Expr} {t size : Ty}
      (sized : a.type.getArraySize? = some size) (ranged : size.getRange? = some (lower, upper))
      (inside : RestsOnParameter env p replaced lower) :
      RestsOnParameter env p replaced (.binary .array a i t)
  | upper {replaced : Bool} {a i lower upper : Expr} {t size : Ty}
      (sized : a.type.getArraySize? = some size) (ranged : size.getRange? = some (lower, upper))
      (inside : RestsOnParameter env p replaced upper) :
      RestsOnParameter env p replaced (.binary .array a i t)
  | unary {replaced : Bool} {k : UnaryKind} {e : Expr} {t : Ty}
      (inside : RestsOnParameter env p replaced e) : RestsOnParameter env p replaced (.unary k e t)
  | left {replaced : Bool} {k : BinaryKind} {l r : Expr} {t : Ty} (operator : k ≠ .array)
      (inside : RestsOnParameter env p replaced l) : RestsOnParameter env p replaced (.binary k l r t)
  | right {replaced : Bool} {k : BinaryKind} {l r : Expr} {t : Ty} (operator : isOperator k = true)
      (inside : RestsOnParameter env p replaced r) : RestsOnParameter env p replaced (.binary k l r t)
  | andRight {replaced : Bool} {l r : Expr} {t : Ty} {a : Int} (first : Computes env p l a)
      (holds : a ≠ 0) (inside : RestsOnParameter env p replaced r) :
      RestsOnParameter env p replaced (.binary .and l r t)
  | orRight {replaced : Bool} {l r : Expr} {t : Ty} (first : Computes env p l 0)
      (inside : RestsOnParameter env p replaced r) : RestsOnParameter env p replaced (.binary .or l r t)
  | cond {replaced : Bool} {c y n : Expr} {t : Ty} (inside : RestsOnParameter env p replaced c) :
      RestsOnParameter env p replaced (.inlineIf c y n t)
  | yes {replaced : Bool} {c y n : Expr} {t : Ty} {a : Int} (first : Computes env p c a)
      (holds : a ≠ 0) (inside : RestsOnParameter env p replaced y) :
      RestsOnParameter env p replaced (.inlineIf c y n t)
  | no {replaced : Bool} {c y n : Expr} {t : Ty} (first : Computes env p c 0)
      (inside : RestsOnParameter env p replaced n) : RestsOnParameter env p replaced (.inlineIf c y n t)

/-- What the type checker promises about an expression that is translated: parameters have
no data, every node is well typed, and the bounds of indices read no variables. -/
structure Evaluable (env : Env) (p : Option Instance) (e : Expr) : Prop where
  parameters : ∀ s argument, mapped? p s = some argument → env.getData s = none
  typed : ∀ x, Meets env p x e → WellTyped x
  ranges : ∀ x size lower upper, Meets env p x e → x.type.getArraySize? = some size →
    size.getRange? = some (lower, upper) →
      ¬ RestsOnParameter env p true lower ∧ ¬ RestsOnParameter env p true upper

section

variable {env : Env} {p : Option Instance} {e x : Expr}

namespace Evaluable

variable (evaluable : Evaluable env p e)

include evaluable

theorem within (inside : Meets env p x e) : Evaluable env p x where
  parameters := evaluable.parameters
  typed y met := evaluable.typed y (met.trans inside)
  ranges y size lower upper met := evaluable.ranges y size lower upper (met.trans inside)

theorem next (next : Next env p x e) : Evaluable env p x := evaluable.within (.single next)

theorem sub (child : x ∈ e.subs) : Evaluable env p x := evaluable.next (.sub child)

/-- What has an initialiser is no parameter. -/
theorem unbound_of_data {s : Symbol} {var : Variable} (data : env.getData s = some var) :
    mapped? p s = none := by
  cases bound : mapped? p s with
  | none => rfl
  | some argument =>
      rw [evaluable.parameters s argument bound] at data
      cases data

theorem unbound_of_initialiser {s : Symbol} {init : Expr} (given : env.initialiser s = some init) :
    mapped? p s = none := by
  obtain ⟨var, data, _⟩ := Option.bind_eq_some_iff.mp given
  exact evaluable.unbound_of_data data

end Evaluable

end

/-! ## The evaluator -/

/-- What a symbol is replaced by is its argument, after the substitution. -/
def Solves (σ : Bindings) (p : Option Instance) : Prop :=
  ∀ s, σ s = (mapped? p s).map fun argument => argument.subst σ

section

variable {env : Env} {σ : Bindings} {p : Option Instance} {s : Symbol} {t : Ty}

theorem Solves.unbound (solved : Solves σ p) (free : mapped? p s = none) : σ s = none := by
  rw [solved s, free, Option.map_none]

theorem Solves.bound (solved : Solves σ p) {argument : Expr} (bound : mapped? p s = some argument) :
    (Expr.identifier s t).subst σ = argument.subst σ := by
  rw [Expr.subst, solved s, bound, Option.map_some]

theorem Solves.kept (solved : Solves σ p) (free : mapped? p s = none) :
    (Expr.identifier s t).subst σ = .identifier s (t.subst σ) := by
  rw [Expr.subst, solved.unbound free]

variable {replaced : Bool}

theorem Solves.keptIf (solved : Solves σ p) (free : mapped? p s = none) :
    (Expr.identifier s t).subst (σ.onlyIf replaced) = .identifier s (t.subst (σ.onlyIf replaced)) := by
  cases replaced with
  | false => rw [Expr.subst, Bindings.onlyIf, if_neg Bool.noConfusion]
  | true => exact solved.kept free

end

section

variable {env : Env} {σ : Bindings} {p : Option Instance} {replaced : Bool} {depth : Nat} {e : Expr}
  {w : Int}

/-- The entries of what is no symbol are substituted one by one. -/
theorem entry_subst {init entry : Expr} {offset : Nat} (found : init.subs[offset]? = some entry) :
    (init.subst σ).subs[offset]? = some (entry.subst σ) := by
  have noSymbol : ∀ s t, init ≠ .identifier s t := by
    rintro s t rfl
    cases found
  rw [Expr.subs_subst noSymbol, List.getElem?_map, found, Option.map_some]

theorem isNumber_type_subst (t : Ty) (typed : isNumber t = true) : isNumber (t.subst σ) = true :=
  (isNumber_subst t).trans typed

/-- The entries of constants have been substituted, those of variables have not. -/
theorem entry_of_initialiser {s : Symbol} {init entry : Expr} {offset : Nat}
    (given : env.initialiser s = some init) (found : init.subs[offset]? = some entry) :
    ∃ init', (env.subst σ).initialiser s = some init' ∧
      init'.subs[offset]? = some (entry.subst (σ.onlyIf (env.getType s).isConstant)) := by
  rw [initialiser_subst, given, Option.map_some]
  refine ⟨_, rfl, ?_⟩
  cases (env.getType s).isConstant with
  | true => exact entry_subst found
  | false =>
      rw [if_neg Bool.noConfusion, subs_substType, found, Bindings.onlyIf, if_neg Bool.noConfusion,
        Expr.subst_none]

/-- A cell is read from the entry at its place. -/
theorem evalAux_subst_array {a i : Expr} {t : Ty} (solved : Solves σ p)
    (evaluable : Evaluable env p (.binary .array a i t))
    (closed : ¬ RestsOnParameter env p replaced (.binary .array a i t))
    (below : ∀ {replaced : Bool} {x : Expr} {v : Int}, Evaluable env p x →
      ¬ RestsOnParameter env p replaced x → evalAux env depth p x = .ok v →
        evalAux (env.subst σ) depth none (x.subst (σ.onlyIf replaced)) = .ok v)
    (evaluated : evalAux env (depth + 1) p (.binary .array a i t) = .ok w) :
    evalAux (env.subst σ) (depth + 1) none
      ((Expr.binary .array a i t).subst (σ.onlyIf replaced)) = .ok w := by
  have typed := evalAux_typed evaluated
  obtain ⟨s, arrayType, index, size, bounds, init, entry, rfl, at', sized, ranged, inside, given, found,
    later⟩ := evalAux_array evaluated
  have first : Expr.identifier s arrayType ∈
      (Expr.binary .array (.identifier s arrayType) i t).subs := List.mem_cons_self
  have second : i ∈ (Expr.binary .array (.identifier s arrayType) i t).subs :=
    List.mem_cons_of_mem _ List.mem_cons_self
  have free := evaluable.unbound_of_initialiser given
  have position := below (evaluable.sub second) (fun reads => closed (.index reads)) at'
  have limits : computeRangeBoundsWith (evalAux (env.subst σ) depth none)
      (size.subst (σ.onlyIf replaced)) = .ok bounds := by
    refine lifts_bounds_subst (fun lower upper limits => ?_) bounds ranged
    constructor
    · exact fun v => below ((evaluable.sub first).next (.lower sized limits))
        fun rests => closed (.lower sized limits rests)
    · exact fun v => below ((evaluable.sub first).next (.upper sized limits))
        fun rests => closed (.upper sized limits rests)
  obtain ⟨lower, upper, limited, least⟩ := getRange?_of_computeRangeBoundsWith ranged
  have content : evalAux (env.subst σ) depth none
      (entry.subst (σ.onlyIf (env.getType s).isConstant)) = .ok w := by
    have entries := (evaluable.sub first).next (.initialiser given)
    refine below (entries.sub (List.mem_of_getElem? found)) (fun rests => closed ?_) later
    exact .entry given ⟨depth, at'⟩ sized limited ⟨depth, least⟩ found rests
  obtain ⟨init', given', found'⟩ := @entry_of_initialiser env σ _ _ _ _ given found
  have sized' : (Expr.identifier s (arrayType.subst (σ.onlyIf replaced))).type.getArraySize? =
      some (size.subst (σ.onlyIf replaced)) := by
    change (arrayType.subst _).getArraySize? = _
    rw [Ty.getArraySize?_subst, sized, Option.map_some]
  rw [Expr.subst, solved.keptIf free, evalAux_array_eq (isNumber_type_subst t typed) sized', position]
  change (computeRangeBoundsWith (evalAux (env.subst σ) depth none) (size.subst _) >>= _) = _
  rw [limits]
  change (if ¬ (bounds.1 ≤ index ∧ index ≤ bounds.2) then _ else readCell _ _ _ _) = _
  rw [if_neg (not_not.mpr inside), readCell_eq given' found']
  exact content

/-- A number the evaluator returns with the mapping is the one it returns after the
substitution, by induction on the depth of the stack. -/
theorem evalAux_subst (solved : Solves σ p) (evaluable : Evaluable env p e)
    (closed : ¬ RestsOnParameter env p replaced e) (evaluated : evalAux env depth p e = .ok w) :
    evalAux (env.subst σ) depth none (e.subst (σ.onlyIf replaced)) = .ok w := by
  induction depth generalizing replaced e w with
  | zero => cases evaluated
  | succ depth ih =>
      have typed := evalAux_typed evaluated
      cases e with
      | identifier s t =>
          have constant := evalAux_isConstant evaluated
          rcases evalAux_identifier evaluated with ⟨init, given, later⟩ | ⟨plain, argument, bound, later⟩
          · have free := evaluable.unbound_of_initialiser given
            rw [solved.keptIf free,
              evalAux_initialised_eq (isNumber_type_subst t typed) (isConstant_subst.trans constant)
                (initialiser_constant constant given)]
            exact ih (evaluable.next (.initialiser given))
              (fun rests : RestsOnParameter env p true init => closed (.initialiser given rests)) later
          · cases replaced with
            | false => exact absurd (.parameter bound) closed
            | true =>
                have resolved := ih (evaluable.next (.argument bound))
                  (fun rests : RestsOnParameter env p true argument => closed (.argument bound rests)) later
                change evalAux (env.subst σ) (depth + 1) none ((Expr.identifier s t).subst σ) = _
                rw [solved.bound bound]
                exact lifts_evalAux (Extends.refl none) (Nat.le_succ depth) _ w resolved
      | constant v t =>
          have read := evalAux_constant evaluated
          have read' := (getValue?_subst (σ := σ.onlyIf replaced) v t).trans read
          have returned := @evalAux_constant_eq (env.subst σ) none depth (t.subst (σ.onlyIf replaced)) v
            (isNumber_type_subst t typed)
          rw [read'] at returned
          exact returned
      | unary k x t =>
          have child : x ∈ (Expr.unary k x t).subs := List.mem_cons_self
          rcases evalAux_unary_kind evaluated with rfl | rfl
          · obtain ⟨a, operand, rfl⟩ := evalAux_not evaluated
            have inner := ih (evaluable.sub child) (fun rests => closed (.unary rests)) operand
            rw [Expr.subst, evalAux_not_eq (isNumber_type_subst t typed), inner]
            rfl
          · have unfolded := @evalAux_unaryMinus_eq env p depth x t typed
            rw [evaluated] at unfolded
            obtain ⟨a, operand, checked⟩ := Res.bind_eq_ok.mp unfolded.symm
            have inner := ih (evaluable.sub child) (fun rests => closed (.unary rests)) operand
            rw [Expr.subst, evalAux_unaryMinus_eq (isNumber_type_subst t typed), inner]
            exact checked
      | binary k l r t =>
          have first : l ∈ (Expr.binary k l r t).subs := List.mem_cons_self
          have second : r ∈ (Expr.binary k l r t).subs := List.mem_cons_of_mem _ List.mem_cons_self
          have left {a : Int} (noArray : k ≠ .array) (read : evalAux env depth p l = .ok a) :
              evalAux (env.subst σ) depth none (l.subst (σ.onlyIf replaced)) = .ok a :=
            ih (evaluable.sub first) (fun rests => closed (.left noArray rests)) read
          have typed' := isNumber_type_subst (σ := σ.onlyIf replaced) t typed
          rcases evalAux_binary_kind evaluated with ⟨op, listed⟩ | rfl | rfl | rfl
          · obtain ⟨a, b, read, read', computed⟩ := evalAux_binary listed evaluated
            have operator := isOperator_of_binaryOp listed
            have right := ih (evaluable.sub second) (fun rests => closed (.right operator rests)) read'
            rw [Expr.subst, evalAux_binary_eq typed' listed, left (binaryOp_ne_array listed) read, right]
            exact computed
          · obtain ⟨a, read, outcome⟩ := evalAux_and evaluated
            rw [Expr.subst, evalAux_and_eq typed', left BinaryKind.noConfusion read]
            rcases outcome with ⟨rfl, rfl⟩ | ⟨holds, b, read', rfl⟩
            · rfl
            · have right := ih (evaluable.sub second)
                (fun rests => closed (.andRight ⟨depth, read⟩ holds rests)) read'
              change (if a = 0 then _ else _) = _
              rw [if_neg holds, right]
              rfl
          · obtain ⟨a, read, outcome⟩ := evalAux_or evaluated
            rw [Expr.subst, evalAux_or_eq typed', left BinaryKind.noConfusion read]
            rcases outcome with ⟨holds, rfl⟩ | ⟨rfl, b, read', rfl⟩
            · exact if_pos holds
            · have right := ih (evaluable.sub second)
                (fun rests => closed (.orRight ⟨depth, read⟩ rests)) read'
              change (if (0 : Int) ≠ 0 then .ok 1 else _) = _
              rw [if_neg (not_not.mpr rfl), right]
              rfl
          · exact evalAux_subst_array solved evaluable closed (fun inner => ih inner) evaluated
      | inlineIf c y n t =>
          have first : c ∈ (Expr.inlineIf c y n t).subs := List.mem_cons_self
          obtain ⟨a, read, outcome⟩ := evalAux_inlineIf evaluated
          have cond := ih (evaluable.sub first) (fun rests => closed (.cond rests)) read
          rw [Expr.subst, evalAux_inlineIf_eq (isNumber_type_subst t typed), cond]
          rcases outcome with ⟨holds, chosen⟩ | ⟨rfl, chosen⟩
          · have yes := ih (evaluable.sub (List.mem_cons_of_mem _ List.mem_cons_self))
              (fun rests => closed (.yes ⟨depth, read⟩ holds rests)) chosen
            exact (if_pos holds).trans yes
          · have no := ih (evaluable.sub
                (List.mem_cons_of_mem _ (List.mem_cons_of_mem _ List.mem_cons_self)))
              (fun rests => closed (.no ⟨depth, read⟩ rests)) chosen
            change (if (0 : Int) ≠ 0 then evalAux (env.subst σ) depth none (y.subst (σ.onlyIf replaced)) else _) = _
            rw [if_neg (not_not.mpr rfl)]
            exact no
      | nary k es t =>
          cases evalAux_nary_kind evaluated
          have other : isNumber t = false := evaluable.typed _ .refl
          exact absurd (other.symm.trans typed) Bool.noConfusion
      | sync k channel =>
          have other : isNumber (Expr.sync k channel).type = false := rfl
          exact absurd (other.symm.trans typed) Bool.noConfusion

/-! ## Back from the substitution -/

theorem Computes.eq {v : Int} (first : Computes env p e v) (again : Computes env p e w) : v = w := by
  obtain ⟨depth, first⟩ := first
  obtain ⟨depth', again⟩ := again
  have first := lifts_evalAux (Extends.refl p) (Nat.le_max_left depth depth') e v first
  have again := lifts_evalAux (Extends.refl p) (Nat.le_max_right depth depth') e w again
  exact Except.ok.inj (first.symm.trans again)

theorem closed_and {l r : Expr} {t : Ty} {a : Int} (first : Computes env p l a)
    (left : ¬ RestsOnParameter env p replaced l) (right : a ≠ 0 → ¬ RestsOnParameter env p replaced r) :
    ¬ RestsOnParameter env p replaced (.binary .and l r t) := by
  intro rests
  cases rests with
  | left _ inside => exact left inside
  | right operator _ => cases operator
  | andRight again holds inside =>
      rw [again.eq first] at holds
      exact right holds inside

theorem closed_or {l r : Expr} {t : Ty} {a : Int} (first : Computes env p l a)
    (left : ¬ RestsOnParameter env p replaced l) (right : a = 0 → ¬ RestsOnParameter env p replaced r) :
    ¬ RestsOnParameter env p replaced (.binary .or l r t) := by
  intro rests
  cases rests with
  | left _ inside => exact left inside
  | right operator _ => cases operator
  | orRight again inside => exact right (first.eq again) inside

theorem closed_inlineIf {c y n : Expr} {t : Ty} {a : Int} (first : Computes env p c a)
    (cond : ¬ RestsOnParameter env p replaced c) (yes : a ≠ 0 → ¬ RestsOnParameter env p replaced y)
    (no : a = 0 → ¬ RestsOnParameter env p replaced n) :
    ¬ RestsOnParameter env p replaced (.inlineIf c y n t) := by
  intro rests
  cases rests with
  | cond inside => exact cond inside
  | yes again holds inside =>
      rw [again.eq first] at holds
      exact yes holds inside
  | no again inside => exact no (first.eq again) inside

/-- What comes back of a cell comes back of its index, of the bounds and of the entry. -/
theorem evalAux_subst_array_returned {a i : Expr} {t : Ty} {depth' : Nat} {v : Int} (solved : Solves σ p)
    (evaluable : Evaluable env p (.binary .array a i t))
    (below : ∀ {replaced : Bool} {x : Expr} {u u' : Int}, Evaluable env p x →
      evalAux env depth p x = .ok u →
        evalAux (env.subst σ) depth' none (x.subst (σ.onlyIf replaced)) = .ok u' →
          u' = u ∧ ¬ RestsOnParameter env p replaced x)
    (evaluated : evalAux env (depth + 1) p (.binary .array a i t) = .ok w)
    (returned : evalAux (env.subst σ) (depth' + 1) none
      ((Expr.binary .array a i t).subst (σ.onlyIf replaced)) = .ok v) :
    v = w ∧ ¬ RestsOnParameter env p replaced (.binary .array a i t) := by
  obtain ⟨s, arrayType, index, size, bounds, init, entry, rfl, at', sized, ranged, _, given, found,
    later⟩ := evalAux_array evaluated
  have first : Expr.identifier s arrayType ∈
      (Expr.binary .array (.identifier s arrayType) i t).subs := List.mem_cons_self
  have second : i ∈ (Expr.binary .array (.identifier s arrayType) i t).subs :=
    List.mem_cons_of_mem _ List.mem_cons_self
  rw [Expr.subst, solved.keptIf (evaluable.unbound_of_initialiser given)] at returned
  obtain ⟨_, _, index', size', bounds', init', entry', same, at'', sized', ranged', _, given', found',
    later'⟩ := evalAux_array returned
  cases same
  rw [Ty.getArraySize?_subst, sized, Option.map_some, Option.some.injEq] at sized'
  subst sized'
  obtain ⟨_, lower, upper, limited, least, greatest⟩ := computeRangeBoundsWith_eq_ok ranged
  obtain ⟨_, lower', upper', limited', least', greatest'⟩ := computeRangeBoundsWith_eq_ok ranged'
  rw [Ty.getRange?_subst, limited] at limited'
  cases limited'
  obtain ⟨rfl, position⟩ := below (evaluable.sub second) at' at''
  obtain ⟨start, from'⟩ := below ((evaluable.sub first).next (.lower sized limited)) least least'
  obtain ⟨_, upTo⟩ := below ((evaluable.sub first).next (.upper sized limited)) greatest greatest'
  obtain ⟨init'', given'', found''⟩ := @entry_of_initialiser env σ _ _ _ _ given found
  cases given''.symm.trans given'
  rw [start] at found'
  cases found''.symm.trans found'
  have entries := (evaluable.sub first).next (.initialiser given)
  obtain ⟨rfl, content⟩ := below (entries.sub (List.mem_of_getElem? found)) later later'
  refine ⟨rfl, fun rests => ?_⟩
  cases rests with
  | entry again at'' sized' ranged start found' inside =>
      cases given.symm.trans again
      cases sized.symm.trans sized'
      cases limited.symm.trans ranged
      cases Computes.eq ⟨depth, at'⟩ at''
      cases Computes.eq ⟨depth, least⟩ start
      cases found.symm.trans found'
      exact content inside
  | index inside => exact position inside
  | lower sized' ranged inside =>
      cases sized.symm.trans sized'
      cases limited.symm.trans ranged
      exact from' inside
  | upper sized' ranged inside =>
      cases sized.symm.trans sized'
      cases limited.symm.trans ranged
      exact upTo inside
  | left operator _ => exact absurd rfl operator
  | right operator _ => cases operator

/-- What the evaluator returns after the substitution is what it has returned before it,
and rests on no parameter, by induction on the depth of the stack. -/
theorem evalAux_subst_returned {depth' : Nat} {v : Int} (solved : Solves σ p)
    (evaluable : Evaluable env p e) (evaluated : evalAux env depth p e = .ok w)
    (returned : evalAux (env.subst σ) depth' none (e.subst (σ.onlyIf replaced)) = .ok v) :
    v = w ∧ ¬ RestsOnParameter env p replaced e := by
  induction depth generalizing replaced e w v depth' with
  | zero => cases evaluated
  | succ depth ih =>
      have typed := evalAux_typed evaluated
      obtain ⟨depth', rfl⟩ := depth_of_evalAux returned
      cases e with
      | identifier s t =>
          rcases evalAux_identifier evaluated with ⟨init, given, later⟩ | ⟨plain, argument, bound, later⟩
          · have free := evaluable.unbound_of_initialiser given
            have constant := evalAux_isConstant evaluated
            rw [solved.keptIf free] at returned
            rcases evalAux_identifier returned with ⟨init', given', later'⟩ | ⟨absent, _⟩
            · cases (initialiser_constant constant given).symm.trans given'
              have back : evalAux (env.subst σ) depth' none (init.subst (σ.onlyIf true)) = .ok v := later'
              obtain ⟨rfl, closed⟩ := ih (evaluable.next (.initialiser given)) later back
              refine ⟨rfl, fun rests => ?_⟩
              cases rests with
              | parameter bound => cases free.symm.trans bound
              | argument bound _ => cases free.symm.trans bound
              | initialiser again inside =>
                  cases given.symm.trans again
                  exact closed inside
            · cases (initialiser_constant constant given).symm.trans absent
          · cases replaced with
            | false =>
                rw [Bindings.onlyIf, if_neg Bool.noConfusion, Expr.subst_none] at returned
                rcases evalAux_identifier returned with ⟨init', given', _⟩ | ⟨_, argument', bound', _⟩
                · rw [initialiser_subst, plain] at given'
                  cases given'
                · cases bound'
            | true =>
                have back : evalAux (env.subst σ) (depth' + 1) none
                    (argument.subst (σ.onlyIf true)) = .ok v := by
                  change evalAux (env.subst σ) (depth' + 1) none ((Expr.identifier s t).subst σ) = _ at returned
                  rw [solved.bound bound] at returned
                  exact returned
                obtain ⟨rfl, closed⟩ := ih (evaluable.next (.argument bound)) later back
                refine ⟨rfl, fun rests => ?_⟩
                cases rests with
                | argument again inside =>
                    cases bound.symm.trans again
                    exact closed inside
                | initialiser given _ => cases plain.symm.trans given
      | constant v t =>
          have read := evalAux_constant evaluated
          have read' := evalAux_constant returned
          rw [getValue?_subst, read] at read'
          cases read'
          exact ⟨rfl, fun rests => nomatch rests⟩
      | unary k x t =>
          have child : x ∈ (Expr.unary k x t).subs := List.mem_cons_self
          have closed {a : Int} {a' : Int} (operand : evalAux env depth p x = .ok a)
              (operand' : evalAux (env.subst σ) depth' none (x.subst (σ.onlyIf replaced)) = .ok a') :
              a' = a ∧ ¬ RestsOnParameter env p replaced (.unary k x t) := by
            obtain ⟨same, closed⟩ := ih (evaluable.sub child) operand operand'
            refine ⟨same, fun rests => ?_⟩
            cases rests with
            | unary inside => exact closed inside
          rcases evalAux_unary_kind evaluated with rfl | rfl
          · obtain ⟨a, operand, rfl⟩ := evalAux_not evaluated
            obtain ⟨a', operand', rfl⟩ := evalAux_not returned
            obtain ⟨rfl, closed⟩ := closed operand operand'
            exact ⟨rfl, closed⟩
          · obtain ⟨a, operand, rfl⟩ := evalAux_unaryMinus evaluated
            obtain ⟨a', operand', rfl⟩ := evalAux_unaryMinus returned
            obtain ⟨rfl, closed⟩ := closed operand operand'
            exact ⟨rfl, closed⟩
      | binary k l r t =>
          have first : l ∈ (Expr.binary k l r t).subs := List.mem_cons_self
          have second : r ∈ (Expr.binary k l r t).subs := List.mem_cons_of_mem _ List.mem_cons_self
          rcases evalAux_binary_kind evaluated with ⟨op, listed⟩ | rfl | rfl | rfl
          · obtain ⟨a, b, read, read', computed⟩ := evalAux_binary listed evaluated
            obtain ⟨a', b', back, back', computed'⟩ := evalAux_binary listed returned
            obtain ⟨rfl, left⟩ := ih (evaluable.sub first) read back
            obtain ⟨rfl, right⟩ := ih (evaluable.sub second) read' back'
            refine ⟨Except.ok.inj (computed'.symm.trans computed), fun rests => ?_⟩
            cases rests with
            | left _ inside => exact left inside
            | right _ inside => exact right inside
            | _ => cases listed
          · obtain ⟨a, read, outcome⟩ := evalAux_and evaluated
            obtain ⟨a', back, outcome'⟩ := evalAux_and returned
            obtain ⟨rfl, left⟩ := ih (evaluable.sub first) read back
            rcases outcome with ⟨zero, rfl⟩ | ⟨holds, b, read', rfl⟩
            · rcases outcome' with ⟨_, rfl⟩ | ⟨holds, _⟩
              · exact ⟨rfl, closed_and ⟨depth, read⟩ left fun holds => absurd zero holds⟩
              · exact absurd zero holds
            · rcases outcome' with ⟨zero, _⟩ | ⟨_, b', back', rfl⟩
              · exact absurd zero holds
              · obtain ⟨rfl, right⟩ := ih (evaluable.sub second) read' back'
                exact ⟨rfl, closed_and ⟨depth, read⟩ left fun _ => right⟩
          · obtain ⟨a, read, outcome⟩ := evalAux_or evaluated
            obtain ⟨a', back, outcome'⟩ := evalAux_or returned
            obtain ⟨rfl, left⟩ := ih (evaluable.sub first) read back
            rcases outcome with ⟨holds, rfl⟩ | ⟨zero, b, read', rfl⟩
            · rcases outcome' with ⟨_, rfl⟩ | ⟨zero, _⟩
              · exact ⟨rfl, closed_or ⟨depth, read⟩ left fun zero => absurd zero holds⟩
              · exact absurd zero holds
            · rcases outcome' with ⟨holds, _⟩ | ⟨_, b', back', rfl⟩
              · exact absurd zero holds
              · obtain ⟨rfl, right⟩ := ih (evaluable.sub second) read' back'
                exact ⟨rfl, closed_or ⟨depth, read⟩ left fun _ => right⟩
          · exact evalAux_subst_array_returned solved evaluable (fun inner => ih inner) evaluated returned
      | inlineIf c y n t =>
          have first : c ∈ (Expr.inlineIf c y n t).subs := List.mem_cons_self
          obtain ⟨a, read, outcome⟩ := evalAux_inlineIf evaluated
          obtain ⟨a', back, outcome'⟩ := evalAux_inlineIf returned
          obtain ⟨rfl, cond⟩ := ih (evaluable.sub first) read back
          rcases outcome with ⟨holds, chosen⟩ | ⟨zero, chosen⟩
          · rcases outcome' with ⟨_, chosen'⟩ | ⟨zero, _⟩
            · obtain ⟨rfl, yes⟩ := ih (evaluable.sub (List.mem_cons_of_mem _ List.mem_cons_self)) chosen chosen'
              exact ⟨rfl, closed_inlineIf ⟨depth, read⟩ cond (fun _ => yes) fun zero => absurd zero holds⟩
            · exact absurd zero holds
          · rcases outcome' with ⟨holds, _⟩ | ⟨_, chosen'⟩
            · exact absurd zero holds
            · obtain ⟨rfl, no⟩ := ih (evaluable.sub
                (List.mem_cons_of_mem _ (List.mem_cons_of_mem _ List.mem_cons_self))) chosen chosen'
              exact ⟨rfl, closed_inlineIf ⟨depth, read⟩ cond (fun holds => absurd zero holds) fun _ => no⟩
      | nary k es t =>
          cases evalAux_nary_kind evaluated
          have other : isNumber t = false := evaluable.typed _ .refl
          exact absurd (other.symm.trans typed) Bool.noConfusion
      | sync k channel =>
          have other : isNumber (Expr.sync k channel).type = false := rfl
          exact absurd (other.symm.trans typed) Bool.noConfusion

theorem evalIntegerConstant_subst (solved : Solves σ p) (evaluable : Evaluable env p e)
    (closed : ¬ RestsOnParameter env p true e) (evaluated : evalIntegerConstant env p e = .ok w) :
    evalIntegerConstant (env.subst σ) none (e.subst σ) = .ok w :=
  evalAux_subst solved evaluable closed evaluated

theorem evalIntegerConstant_subst_returned {v : Int} (solved : Solves σ p) (evaluable : Evaluable env p e)
    (evaluated : evalIntegerConstant env p e = .ok w)
    (returned : evalIntegerConstant (env.subst σ) none (e.subst σ) = .ok v) :
    v = w ∧ ¬ RestsOnParameter env p true e :=
  evalAux_subst_returned solved evaluable evaluated returned

end

end Utot
