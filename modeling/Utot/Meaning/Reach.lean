import Mathlib.Logic.Relation
import Utot.Labels.Evaluation
import Utot.Library.Failure
import Utot.Meaning.Constants

/-!
# What an evaluation reaches

The evaluator calls itself on operands, on arguments and initialisers, on the
bounds of an index and on one entry of an initialiser.  Which of these calls it
makes depends on the values of the earlier ones; an operation that is not
defined on `int` stops the program.
-/

namespace Utot

open Utap Uppaal Library

/-! ## Defined operations -/

/-- The types `eval_integer_constant` accepts. -/
def isNumber (t : Ty) : Bool := t.isInteger || t.isBoolean || t.isScalar

/-- The values of an `int`. -/
def IsInt (n : Int) : Prop := intMin ≤ n ∧ n ≤ intMax

/-- The operation is defined on `int`, and its result is one. -/
def Defined : BinaryKind → Int → Int → Prop
  | .plus, a, b => IsInt (a + b)
  | .minus, a, b => IsInt (a - b)
  | .mult, a, b => IsInt (a * b)
  | .div, a, b => b ≠ 0 ∧ IsInt (a.tdiv b)
  | .mod, a, b => b ≠ 0 ∧ IsInt (a.tdiv b)
  | .bitLshift, a, b => 0 ≤ b ∧ b < 32 ∧ 0 ≤ a ∧ a * 2 ^ b.toNat < 2 ^ 32
  | .bitRshift, _, b => 0 ≤ b ∧ b < 32
  | _, _, _ => True

/-- The types of indices that pass the assertions of `compute_range_bounds`. -/
def isIndexType (size : Ty) : Bool :=
  let t := stripLabelsAndConst size
  t.isRange && (t.first?.elim false fun base => base.kind == .prim .int || base.kind == .prim .scalar) &&
    t.getRange?.isSome

/-! ## Values and calls -/

/-- The operands of the initialiser are the cells of the array: the array is constant,
and its initialiser is a list of its type. -/
structure ReadsEntries (env : Env) (s : Symbol) (arrayType : Ty) (init : Expr) : Prop where
  constant : (env.getType s).isConstant = true
  typed : arrayType = env.getType s
  list : ∃ es t, init = .nary .list es t ∧ stripLabels t = stripLabels arrayType

/-- `e` has the value `v`, and every operation on the way to it is defined on `int`.
The operands of an initialiser stand for the cells of its array; where the value is to
be `exact`, they are these cells, and no integer becomes another truth value. -/
inductive Yields (env : Env) (p : Option Instance) (exact : Prop) : Expr → Int → Prop where
  | constant {v n : Int} {t : Ty} (read : (Expr.constant v t).getValue? = some n) :
      Yields env p exact (.constant v t) n
  | initialised {s : Symbol} {t : Ty} {init : Expr} {v : Int} (typed : isNumber t = true)
      (constant : (env.getType s).isConstant = true) (given : env.initialiser s = some init)
      (value : Yields env p exact init v)
      (kept : exact → converted (env.getType s) init.type v = v) :
      Yields env p exact (.identifier s t) v
  | bound {s : Symbol} {t : Ty} {argument : Expr} {v : Int} (typed : isNumber t = true)
      (constant : (env.getType s).isConstant = true) (plain : env.initialiser s = none)
      (given : mapped? p s = some argument) (value : Yields env p exact argument v)
      (kept : exact → converted (env.getType s) argument.type v = v) :
      Yields env p exact (.identifier s t) v
  | not {x : Expr} {t : Ty} {v : Int} (typed : isNumber t = true)
      (operand : Yields env p exact x v) : Yields env p exact (.unary .not x t) (truth (v = 0))
  | unaryMinus {x : Expr} {t : Ty} {v : Int} (typed : isNumber t = true)
      (operand : Yields env p exact x v) (fits : IsInt (-v)) :
      Yields env p exact (.unary .unaryMinus x t) (-v)
  | binary {k : BinaryKind} {l r : Expr} {t : Ty} {a b v : Int} (typed : isNumber t = true)
      (left : Yields env p exact l a) (right : Yields env p exact r b)
      (result : operate k a b = some v) (defined : Defined k a b) :
      Yields env p exact (.binary k l r t) v
  | andFalse {l r : Expr} {t : Ty} (typed : isNumber t = true) (left : Yields env p exact l 0) :
      Yields env p exact (.binary .and l r t) 0
  | andTrue {l r : Expr} {t : Ty} {a b : Int} (typed : isNumber t = true)
      (left : Yields env p exact l a) (holds : a ≠ 0) (right : Yields env p exact r b) :
      Yields env p exact (.binary .and l r t) (truth (b ≠ 0))
  | orTrue {l r : Expr} {t : Ty} {a : Int} (typed : isNumber t = true)
      (left : Yields env p exact l a) (holds : a ≠ 0) : Yields env p exact (.binary .or l r t) 1
  | orFalse {l r : Expr} {t : Ty} {b : Int} (typed : isNumber t = true)
      (left : Yields env p exact l 0) (right : Yields env p exact r b) :
      Yields env p exact (.binary .or l r t) (truth (b ≠ 0))
  | chooseYes {c y n : Expr} {t : Ty} {a v : Int} (typed : isNumber t = true)
      (cond : Yields env p exact c a) (holds : a ≠ 0) (value : Yields env p exact y v) :
      Yields env p exact (.inlineIf c y n t) v
  | chooseNo {c y n : Expr} {t : Ty} {v : Int} (typed : isNumber t = true)
      (cond : Yields env p exact c 0) (value : Yields env p exact n v) :
      Yields env p exact (.inlineIf c y n t) v
  | cell {s : Symbol} {i init lower upper entry : Expr} {arrayType t size : Ty}
      {index least greatest v : Int} (typed : isNumber t = true) (at' : Yields env p exact i index)
      (sized : arrayType.getArraySize? = some size) (indexType : isIndexType size = true)
      (ranged : size.getRange? = some (lower, upper)) (start : Yields env p exact lower least)
      (stop : Yields env p exact upper greatest) (inside : least ≤ index ∧ index ≤ greatest)
      (given : env.initialiser s = some init)
      (found : init.subs[(index - least).toNat]? = some entry)
      (value : Yields env p exact entry v) (entries : exact → ReadsEntries env s arrayType init)
      (kept : exact → converted arrayType entry.type v = v) :
      Yields env p exact (.binary .array (.identifier s arrayType) i t) v

/-- The value of `e` in the evaluator. -/
abbrev YieldsInitially (env : Env) (p : Option Instance) : Expr → Int → Prop := Yields env p False

/-- The value of `e`, resting on what Uppaal reads. -/
abbrev YieldsExactly (env : Env) (p : Option Instance) : Expr → Int → Prop := Yields env p True

section

variable (env : Env) (p : Option Instance)

/-- The index lies within the bounds of the array, `offset` cells behind the first one. -/
inductive AtOffset (arrayType : Ty) (i : Expr) : Nat → Prop where
  | within {size : Ty} {lower upper : Expr} {index least greatest : Int}
      (at' : YieldsInitially env p i index) (sized : arrayType.getArraySize? = some size)
      (indexType : isIndexType size = true) (ranged : size.getRange? = some (lower, upper))
      (start : YieldsInitially env p lower least) (stop : YieldsInitially env p upper greatest)
      (inside : least ≤ index ∧ index ≤ greatest) : AtOffset arrayType i (index - least).toNat

/-- The evaluation of an expression evaluates another one next. -/
inductive Calls : Expr → Expr → Prop where
  | operand {k : UnaryKind} {x : Expr} {t : Ty} (typed : isNumber t = true)
      (kind : k = .not ∨ k = .unaryMinus) : Calls (.unary k x t) x
  | left {k : BinaryKind} {l r : Expr} {t : Ty} (typed : isNumber t = true)
      (kind : isOperator k = true ∨ k = .and ∨ k = .or) : Calls (.binary k l r t) l
  | right {k : BinaryKind} {l r : Expr} {t : Ty} {a : Int} (typed : isNumber t = true)
      (operator : isOperator k = true) (first : YieldsInitially env p l a) : Calls (.binary k l r t) r
  | andRight {l r : Expr} {t : Ty} {a : Int} (typed : isNumber t = true)
      (first : YieldsInitially env p l a) (holds : a ≠ 0) : Calls (.binary .and l r t) r
  | orRight {l r : Expr} {t : Ty} (typed : isNumber t = true) (first : YieldsInitially env p l 0) :
      Calls (.binary .or l r t) r
  | cond {c y n : Expr} {t : Ty} (typed : isNumber t = true) : Calls (.inlineIf c y n t) c
  | yes {c y n : Expr} {t : Ty} {a : Int} (typed : isNumber t = true)
      (first : YieldsInitially env p c a) (holds : a ≠ 0) : Calls (.inlineIf c y n t) y
  | no {c y n : Expr} {t : Ty} (typed : isNumber t = true) (first : YieldsInitially env p c 0) :
      Calls (.inlineIf c y n t) n
  | initialiser {s : Symbol} {t : Ty} {init : Expr} (typed : isNumber t = true)
      (constant : (env.getType s).isConstant = true) (given : env.initialiser s = some init) :
      Calls (.identifier s t) init
  | argument {s : Symbol} {t : Ty} {argument : Expr} (typed : isNumber t = true)
      (constant : (env.getType s).isConstant = true) (plain : env.initialiser s = none)
      (given : mapped? p s = some argument) : Calls (.identifier s t) argument
  | index {a i : Expr} {t size : Ty} (typed : isNumber t = true)
      (sized : a.type.getArraySize? = some size) : Calls (.binary .array a i t) i
  | lower {a i lower upper : Expr} {t size : Ty} {index : Int} (typed : isNumber t = true)
      (at' : YieldsInitially env p i index) (sized : a.type.getArraySize? = some size)
      (indexType : isIndexType size = true) (ranged : size.getRange? = some (lower, upper)) :
      Calls (.binary .array a i t) lower
  | upper {a i lower upper : Expr} {t size : Ty} {index least : Int} (typed : isNumber t = true)
      (at' : YieldsInitially env p i index) (sized : a.type.getArraySize? = some size)
      (indexType : isIndexType size = true) (ranged : size.getRange? = some (lower, upper))
      (start : YieldsInitially env p lower least) : Calls (.binary .array a i t) upper
  | entry {s : Symbol} {i init entry : Expr} {arrayType t : Ty} {offset : Nat}
      (typed : isNumber t = true) (inside : AtOffset env p arrayType i offset)
      (given : env.initialiser s = some init) (found : init.subs[offset]? = some entry) :
      Calls (.binary .array (.identifier s arrayType) i t) entry

/-- The calls of the evaluation return, and then it performs a step that is not defined. -/
inductive Breaks : Expr → Prop where
  | operation {k : BinaryKind} {l r : Expr} {t : Ty} {a b : Int} (typed : isNumber t = true)
      (operator : isOperator k = true) (left : YieldsInitially env p l a)
      (right : YieldsInitially env p r b) (undefined : ¬ Defined k a b) : Breaks (.binary k l r t)
  | negation {x : Expr} {t : Ty} {v : Int} (typed : isNumber t = true)
      (operand : YieldsInitially env p x v) (undefined : ¬ IsInt (-v)) :
      Breaks (.unary .unaryMinus x t)
  | indexType {a i : Expr} {t size : Ty} {index : Int} (typed : isNumber t = true)
      (at' : YieldsInitially env p i index) (sized : a.type.getArraySize? = some size)
      (undefined : isIndexType size = false) : Breaks (.binary .array a i t)
  | noData {s : Symbol} {i : Expr} {arrayType t : Ty} {offset : Nat} (typed : isNumber t = true)
      (inside : AtOffset env p arrayType i offset) (undefined : env.getData s = none) :
      Breaks (.binary .array (.identifier s arrayType) i t)
  | noEntry {s : Symbol} {i init : Expr} {arrayType t : Ty} {offset : Nat}
      (typed : isNumber t = true) (inside : AtOffset env p arrayType i offset)
      (given : env.initialiser s = some init) (undefined : init.subs[offset]? = none) :
      Breaks (.binary .array (.identifier s arrayType) i t)

/-- What the evaluation reads here is not what Uppaal reads: the operand of an
initialiser that is no cell of a constant array, or an integer other than 0 and 1
where a Boolean is expected. -/
inductive MisreadAt : Expr → Prop where
  | operand {s : Symbol} {i init entry : Expr} {arrayType t : Ty} {offset : Nat}
      (typed : isNumber t = true) (inside : AtOffset env p arrayType i offset)
      (given : env.initialiser s = some init) (found : init.subs[offset]? = some entry)
      (other : ¬ ReadsEntries env s arrayType init) :
      MisreadAt (.binary .array (.identifier s arrayType) i t)
  | entry {s : Symbol} {i init entry : Expr} {arrayType t : Ty} {offset : Nat} {v : Int}
      (typed : isNumber t = true) (inside : AtOffset env p arrayType i offset)
      (given : env.initialiser s = some init) (found : init.subs[offset]? = some entry)
      (value : YieldsInitially env p entry v) (other : converted arrayType entry.type v ≠ v) :
      MisreadAt (.binary .array (.identifier s arrayType) i t)
  | initialiser {s : Symbol} {t : Ty} {init : Expr} {v : Int} (typed : isNumber t = true)
      (constant : (env.getType s).isConstant = true) (given : env.initialiser s = some init)
      (value : YieldsInitially env p init v) (other : converted (env.getType s) init.type v ≠ v) :
      MisreadAt (.identifier s t)
  | argument {s : Symbol} {t : Ty} {argument : Expr} {v : Int} (typed : isNumber t = true)
      (constant : (env.getType s).isConstant = true) (plain : env.initialiser s = none)
      (given : mapped? p s = some argument) (value : YieldsInitially env p argument v)
      (other : converted (env.getType s) argument.type v ≠ v) : MisreadAt (.identifier s t)

/-- The evaluation of `e` reaches what it misreads. -/
def Misreads (e : Expr) : Prop := ∃ x, Relation.ReflTransGen (Calls env p) e x ∧ MisreadAt env p x

/-- The evaluation of `e` reaches a step that is not defined. -/
def Faulty (e : Expr) : Prop := ∃ x, Relation.ReflTransGen (Calls env p) e x ∧ Breaks env p x

/-! ## Type-checked expressions -/

/-- All expressions the evaluator can evaluate next. -/
def callees : Expr → List Expr
  | .identifier s _ => (env.initialiser s).toList ++ (mapped? p s).toList
  | .binary .array a i _ =>
      i :: ((a.type.getArraySize?.bind Ty.getRange?).elim [] fun bounds => [bounds.1, bounds.2]) ++
        match a with
        | .identifier s _ => ((env.initialiser s).map Expr.subs).getD []
        | _ => []
  | e => e.subs

/-- What the parser and the type checker promise about one node: numbers written
down are those of an `int`, and integers or truth values; lists are no numbers, and
what has cells is an array. -/
def WellTyped : Expr → Prop
  | .constant v t => IsInt v ∧ (isNumber t = true → t.isIntegral = true)
  | .binary .array a _ _ => a.type.getArraySize?.isSome = true
  | .nary .list _ t => isNumber t = false
  | _ => True

/-- An expression the type checker accepts: symbols are declared before they are
used, and every node is well typed. -/
inductive TypeChecked : Expr → Prop where
  | node {e : Expr} (typed : WellTyped e) (below : ∀ x ∈ callees env p e, TypeChecked x) :
      TypeChecked e

end

end Utot
