import Utot.Uppaal.Meaning

/-!
# Meaning of updates in Uppaal

An update changes the state by assignments in sequence.  A parameter that is no
reference is a variable of its own in every instance, so that an assignment to
it changes the cell of the parameter and not its argument.
-/

namespace Utot.Uppaal

open Utap

/-- The operator of a compound assignment. -/
def compoundOperator : BinaryKind → Option BinaryKind
  | .assPlus => some .plus
  | .assMinus => some .minus
  | .assDiv => some .div
  | .assMod => some .mod
  | .assMult => some .mult
  | .assAnd => some .bitAnd
  | .assOr => some .bitOr
  | .assXor => some .bitXor
  | .assLshift => some .bitLshift
  | .assRshift => some .bitRshift
  | _ => none

/-- The operator of an increment or a decrement. -/
def stepOperator : UnaryKind → Option BinaryKind
  | .postIncrement => some .plus
  | .preIncrement => some .plus
  | .postDecrement => some .minus
  | .preDecrement => some .minus
  | _ => none

variable {V : Type}

/-- The cell an assignment to an expression changes. -/
inductive Stores (A : Arithmetic V) (env : Env) (p : Option Instance) :
    Expr → Symbol → (State V → Option (List Int)) → Prop where
  | declared {s : Symbol} {t : Ty} (unbound : mapped? p s = none) :
      Stores A env p (.identifier s t) s fun _ => some []
  | value {s : Symbol} {t : Ty} {argument : Expr} (bound : mapped? p s = some argument)
      (noRef : (env.getType s).is .ref = false) : Stores A env p (.identifier s t) s fun _ => some []
  | reference {s c : Symbol} {t : Ty} {argument : Expr} {indices : State V → Option (List Int)}
      (bound : mapped? p s = some argument) (ref : (env.getType s).is .ref = true)
      (later : Stores A env p argument c indices) : Stores A env p (.identifier s t) c indices
  | cell {a i : Expr} {t : Ty} {c : Symbol} {indices : State V → Option (List Int)}
      {f : State V → Option V} (array : Stores A env p a c indices) (at' : Means A p i (.value f)) :
      Stores A env p (.binary .array a i t) c (indexed A indices f)

/-- The state after a cell that exists has been given a value. -/
def State.store (σ : State V) (c : Symbol) (indices : Option (List Int)) (v : Option V) :
    Option (State V) :=
  indices.bind fun is => (σ c is).bind fun _ => v.map (σ.set c is)

/-- The states an update leads to.  An integer assigned to a Boolean is converted; the
ranges of the variables are not enforced. -/
inductive Executes (A : Arithmetic V) (env : Env) (p : Option Instance) :
    Expr → (State V → Option (State V)) → Prop where
  | assign {l r : Expr} {t : Ty} {c : Symbol} {indices : State V → Option (List Int)}
      {f : State V → Option V} (target : Stores A env p l c indices) (value : Means A p r (.value f)) :
      Executes A env p (.binary .assign l r t) fun σ =>
        σ.store c (indices σ) (A.convertOf l.type r.type (f σ))
  | compound {k o : BinaryKind} {l r : Expr} {t : Ty} {c : Symbol}
      {indices : State V → Option (List Int)} {f : State V → Option V}
      (operator : compoundOperator k = some o) (target : Stores A env p l c indices)
      (value : Means A p r (.value f)) :
      Executes A env p (.binary k l r t) fun σ => σ.store c (indices σ)
        (((indices σ).bind (σ c)).bind fun a => (f σ).bind fun b => A.operate o a b)
  | step {k : UnaryKind} {o : BinaryKind} {x : Expr} {t : Ty} {c : Symbol}
      {indices : State V → Option (List Int)} (operator : stepOperator k = some o)
      (target : Stores A env p x c indices) :
      Executes A env p (.unary k x t) fun σ => σ.store c (indices σ)
        (((indices σ).bind (σ c)).bind fun a => A.operate o a (A.ofInt 1))
  | comma {l r : Expr} {t : Ty} {F G : State V → Option (State V)} (first : Executes A env p l F)
      (second : Executes A env p r G) :
      Executes A env p (.binary .comma l r t) fun σ => (F σ).bind G
  | skip {v : Int} {t : Ty} : Executes A env p (.constant v t) some

end Utot.Uppaal
