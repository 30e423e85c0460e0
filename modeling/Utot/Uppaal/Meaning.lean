import Utot.Uppaal.Arithmetic

/-!
# Meaning of expressions in Uppaal

A state gives every cell of a variable or clock its value.  An expression of an
instance denotes a cell, with indices that depend on the state, or a value;
parameters and select variables stand for their arguments.  Nothing here is
taken from the translator.
-/

namespace Utot.Uppaal

open Utap

/-- The values of the cells that exist. -/
abbrev State (V : Type) := Symbol → List Int → Option V

/-- The state after an assignment to a cell. -/
def State.set {V : Type} (σ : State V) (c : Symbol) (indices : List Int) (v : V) : State V :=
  fun c' indices' => if c' = c ∧ indices' = indices then some v else σ c' indices'

/-- What an expression denotes; where its evaluation is not defined there is no
index and no value. -/
inductive Denotation (V : Type) where
  | place (symbol : Symbol) (indices : State V → Option (List Int))
  | value (f : State V → Option V)

/-- The operators that evaluate both of their operands. -/
def isOperator : BinaryKind → Bool
  | .plus | .minus | .mult | .div | .mod => true
  | .bitAnd | .bitOr | .bitXor | .bitLshift | .bitRshift => true
  | .lt | .le | .eq | .neq | .ge | .gt => true
  | .min | .max => true
  | _ => false

/-- One more index behind those of an array. -/
def indexed {V : Type} (A : Arithmetic V) (indices : State V → Option (List Int))
    (f : State V → Option V) (σ : State V) : Option (List Int) :=
  (indices σ).bind fun is => ((f σ).bind A.toInt).map fun i => is ++ [i]

/-- The meaning of an expression without side effects. -/
inductive Means {V : Type} (A : Arithmetic V) (p : Option Instance) : Expr → Denotation V → Prop where
  | declared {s : Symbol} {t : Ty} (unbound : mapped? p s = none) :
      Means A p (.identifier s t) (.place s fun _ => some [])
  | parameter {s : Symbol} {t : Ty} {argument : Expr} {d : Denotation V}
      (bound : mapped? p s = some argument) (direct : converts t argument.type = false)
      (later : Means A p argument d) : Means A p (.identifier s t) d
  | converted {s : Symbol} {t : Ty} {argument : Expr} {f : State V → Option V}
      (bound : mapped? p s = some argument) (other : converts t argument.type = true)
      (later : Means A p argument (.value f)) :
      Means A p (.identifier s t) (.value fun σ => A.truthOf (f σ))
  | cell {a i : Expr} {t : Ty} {c : Symbol} {indices : State V → Option (List Int)}
      {f : State V → Option V} (array : Means A p a (.place c indices)) (at' : Means A p i (.value f)) :
      Means A p (.binary .array a i t) (.place c (indexed A indices f))
  | read {e : Expr} {c : Symbol} {indices : State V → Option (List Int)}
      (place : Means A p e (.place c indices)) :
      Means A p e (.value fun σ => (indices σ).bind (σ c))
  | integer {v : Int} {t : Ty} (isInt : t.isInteger = true) :
      Means A p (.constant v t) (.value fun _ => some (A.ofInt v))
  | boolean {v : Int} {t : Ty} (isBool : t.isBoolean = true) (notInt : t.isInteger = false) :
      Means A p (.constant v t) (.value fun _ => some (A.ofBool (v ≠ 0)))
  | not {e : Expr} {t : Ty} {f : State V → Option V} (operand : Means A p e (.value f)) :
      Means A p (.unary .not e t) (.value fun σ => A.notOf (f σ))
  | unaryMinus {e : Expr} {t : Ty} {f : State V → Option V} (operand : Means A p e (.value f)) :
      Means A p (.unary .unaryMinus e t) (.value fun σ => (f σ).map A.negate)
  | binary {k : BinaryKind} {l r : Expr} {t : Ty} {f g : State V → Option V}
      (operator : isOperator k = true) (left : Means A p l (.value f))
      (right : Means A p r (.value g)) : Means A p (.binary k l r t)
        (.value fun σ => (f σ).bind fun a => (g σ).bind fun b => A.operate k a b)
  | and {l r : Expr} {t : Ty} {f g : State V → Option V} (left : Means A p l (.value f))
      (right : Means A p r (.value g)) :
      Means A p (.binary .and l r t) (.value fun σ => A.andOf (f σ) (g σ))
  | or {l r : Expr} {t : Ty} {f g : State V → Option V} (left : Means A p l (.value f))
      (right : Means A p r (.value g)) :
      Means A p (.binary .or l r t) (.value fun σ => A.orOf (f σ) (g σ))
  | inlineIf {c y n : Expr} {t : Ty} {f g h : State V → Option V} (cond : Means A p c (.value f))
      (yes : Means A p y (.value g)) (no : Means A p n (.value h)) :
      Means A p (.inlineIf c y n t) (.value fun σ => A.chooseOf (f σ) (g σ) (h σ))

/-- The state gives the cells of constants the values of their initialisers. -/
def GivesConstants {V : Type} (A : Arithmetic V) (env : Env) (p : Option Instance) (σ : State V) : Prop :=
  ∀ c init indices v, (env.getType c).isConstant = true → env.initialiser c = some init →
    Contains env p init indices v →
      σ c indices = some (A.ofInt (converted (env.getType c) init.type v))

end Utot.Uppaal
