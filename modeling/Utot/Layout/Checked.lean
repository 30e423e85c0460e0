import Utot.Layout.Types

/-!
# What the type checker promises about an expression

The types stored in the nodes of an accepted expression are those of its
symbols and of the cells of its arrays, and an argument has the shape of the
parameter it is bound to.
-/

namespace Utot

open Utap

/-- `x` is written in `e`, or in the argument of a parameter that is. -/
inductive Written (p : Option Instance) (x : Expr) : Expr → Prop where
  | self : Written p x x
  | unary {k : UnaryKind} {e : Expr} {t : Ty} (inside : Written p x e) : Written p x (.unary k e t)
  | left {k : BinaryKind} {l r : Expr} {t : Ty} (inside : Written p x l) : Written p x (.binary k l r t)
  | right {k : BinaryKind} {l r : Expr} {t : Ty} (inside : Written p x r) : Written p x (.binary k l r t)
  | cond {c y n : Expr} {t : Ty} (inside : Written p x c) : Written p x (.inlineIf c y n t)
  | yes {c y n : Expr} {t : Ty} (inside : Written p x y) : Written p x (.inlineIf c y n t)
  | no {c y n : Expr} {t : Ty} (inside : Written p x n) : Written p x (.inlineIf c y n t)
  | argument {s : Symbol} {t : Ty} {argument : Expr} (bound : mapped? p s = some argument)
      (inside : Written p x argument) : Written p x (.identifier s t)

theorem Written.trans {p : Option Instance} {x y e : Expr} (first : Written p x y)
    (second : Written p y e) : Written p x e := by
  induction second with
  | self => exact first
  | unary _ ih => exact .unary ih
  | left _ ih => exact .left ih
  | right _ ih => exact .right ih
  | cond _ ih => exact .cond ih
  | yes _ ih => exact .yes ih
  | no _ ih => exact .no ih
  | argument bound _ ih => exact .argument bound ih

/-- The promises about an expression of an instance that sees the variables `scope`. -/
structure Checked (env : Env) (p : Option Instance) (scope : List Symbol) (e : Expr) : Prop where
  identifiers : ∀ s t, Written p (.identifier s t) e → t = env.getType s
  visible : ∀ s t, Written p (.identifier s t) e → mapped? p s = none → s ∈ scope
  subscripts : ∀ a i t, Written p (.binary .array a i t) e → a.type.getSub? = some t
  /-- Parameters and select variables have no data, and the shape of their arguments. -/
  parameters : ∀ s argument, mapped? p s = some argument →
    env.getData s = none ∧ shape env p (env.getType s) = shape env p argument.type

namespace Checked

variable {env : Env} {p : Option Instance} {scope : List Symbol} {e x : Expr}

theorem within (checked : Checked env p scope e) (inside : Written p x e) :
    Checked env p scope x where
  identifiers s t written := checked.identifiers s t (written.trans inside)
  visible s t written := checked.visible s t (written.trans inside)
  subscripts a i t written := checked.subscripts a i t (written.trans inside)
  parameters := checked.parameters

theorem unary {k : UnaryKind} {t : Ty} (checked : Checked env p scope (.unary k e t)) :
    Checked env p scope e := checked.within (.unary .self)

theorem left {k : BinaryKind} {l r : Expr} {t : Ty} (checked : Checked env p scope (.binary k l r t)) :
    Checked env p scope l := checked.within (.left .self)

theorem right {k : BinaryKind} {l r : Expr} {t : Ty} (checked : Checked env p scope (.binary k l r t)) :
    Checked env p scope r := checked.within (.right .self)

theorem argument {s : Symbol} {t : Ty} {argument : Expr}
    (checked : Checked env p scope (.identifier s t)) (bound : mapped? p s = some argument) :
    Checked env p scope argument := checked.within (.argument bound .self)

/-- An operator other than a subscript adds no promise. -/
theorem ofUnary {k : UnaryKind} {t : Ty} (checked : Checked env p scope e) :
    Checked env p scope (.unary k e t) where
  identifiers s t inside := by
    cases inside with
    | unary inside => exact checked.identifiers s t inside
  visible s t inside := by
    cases inside with
    | unary inside => exact checked.visible s t inside
  subscripts a i t inside := by
    cases inside with
    | unary inside => exact checked.subscripts a i t inside
  parameters := checked.parameters

theorem ofBinary {k : BinaryKind} {l r : Expr} {t : Ty} (noArray : k ≠ .array)
    (left : Checked env p scope l) (right : Checked env p scope r) :
    Checked env p scope (.binary k l r t) where
  identifiers s t inside := by
    cases inside with
    | left inside => exact left.identifiers s t inside
    | right inside => exact right.identifiers s t inside
  visible s t inside := by
    cases inside with
    | left inside => exact left.visible s t inside
    | right inside => exact right.visible s t inside
  subscripts a i t inside := by
    cases inside with
    | self => exact absurd rfl noArray
    | left inside => exact left.subscripts a i t inside
    | right inside => exact right.subscripts a i t inside
  parameters := left.parameters

theorem ofCell {a i : Expr} {t : Ty} (sub : a.type.getSub? = some t) (array : Checked env p scope a)
    (index : Checked env p scope i) : Checked env p scope (.binary .array a i t) where
  identifiers s t inside := by
    cases inside with
    | left inside => exact array.identifiers s t inside
    | right inside => exact index.identifiers s t inside
  visible s t inside := by
    cases inside with
    | left inside => exact array.visible s t inside
    | right inside => exact index.visible s t inside
  subscripts a i t inside := by
    cases inside with
    | self => exact sub
    | left inside => exact array.subscripts a i t inside
    | right inside => exact index.subscripts a i t inside
  parameters := array.parameters

/-! ## Without parameters -/

theorem ofConstant (closed : ∀ s, mapped? p s = none) (v : Int) (t : Ty) :
    Checked env p scope (.constant v t) where
  identifiers s t inside := by cases inside
  visible s t inside := by cases inside
  subscripts a i t inside := by cases inside
  parameters s argument bound := by
    rw [closed] at bound
    cases bound

theorem ofDeclared (closed : ∀ s, mapped? p s = none) {s : Symbol} {t : Ty} (typed : t = env.getType s)
    (visible : s ∈ scope) : Checked env p scope (.identifier s t) := by
  have noArgument {s argument} (bound : mapped? p s = some argument) : False := by
    rw [closed] at bound
    cases bound
  constructor
  · intro s' t' inside
    cases inside with
    | self => exact typed
    | argument bound => exact absurd bound noArgument
  · intro s' t' inside _
    cases inside with
    | self => exact visible
    | argument bound => exact absurd bound noArgument
  · intro a i t' inside
    cases inside with
    | argument bound => exact absurd bound noArgument
  · intro s' argument bound
    exact absurd bound noArgument

/-- What is mapped has no initialiser. -/
theorem unbound_of_initialiser (checked : Checked env p scope e) {s : Symbol} {init : Expr}
    (given : env.initialiser s = some init) : mapped? p s = none := by
  cases bound : mapped? p s with
  | none => rfl
  | some argument =>
      rw [Env.initialiser, (checked.parameters s argument bound).1] at given
      cases given

end Checked

end Utot
