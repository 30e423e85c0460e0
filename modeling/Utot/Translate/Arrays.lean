import Utot.Translate.Constants

/-!
# One-dimensional or flattened

TChecker has one-dimensional arrays whose cells share their bounds and their
initial value.  Every other array is split into one variable per cell.  The
functions of this module take that decision: for a declaration from its type
and its initialiser, for a use from the type of the subscripted expression and
the initialiser of its root symbol.
-/

namespace Utot

open Utap

/-- The loops of `is_one_dim_array_type` over `REF` and `LABEL` nodes. -/
def stripRefsAndLabels : Ty → Ty
  | .ref t => stripRefsAndLabels t
  | .label _ t => stripRefsAndLabels t
  | t => t

/-- The element kinds a TChecker array can have. -/
def isCellKind (k : Kind) : Bool :=
  k == .prim .bool || k == .prim .clock || k == .prim .int || k == .range

/-- `is_one_dim_array_type`: `minsz`, `maxsz`, and `basetype` when the answer is
true. -/
def isOneDimArrayType (env : Env) (p : Option Instance) (t : Ty) : Res (Int × Int × Option Ty) := do
  assertThat t.isArray "t.isArray ()"
  let size ← orAssert "getKind () == ARRAY" t.getArraySize?
  let (minsz, maxsz) ← computeRangeBounds env p size
  let elem ← orAssert "t[0]" (stripRefsAndLabels t).first?
  if elem.isArray then .ok (minsz, maxsz, none)
  else
    let basetype := stripRefsAndLabels elem
    .ok (minsz, maxsz, if isCellKind basetype.kind then some basetype else none)

/-- The initialiser an identifier stands for, in `are_all_equals_in_list`. -/
def namedInitialiser (env : Env) : Expr → Res Expr
  | e@(.identifier s _) =>
      match env.getData s with
      | none => .error (.undefined "null dereference")
      | some var =>
          match var.expr with
          | none => trErr [.text "don't know how to evaluate array '", .expr e, .text "'."]
          | some init => .ok init
  | e => .ok e

/-- `are_all_equals_in_list`: the answer, and `val` when the initialiser is not
empty. -/
def areAllEqualsInList (env : Env) (p : Option Instance) : Option Expr → Res (Bool × Option Expr)
  | none => .ok (true, none)
  | some e => do
      assertThat e.type.isArray "expr.getType ().isArray ()"
      let list ← namedInitialiser env e
      let size ← orAssert "getKind () == ARRAY" list.type.getArraySize?
      let (minsz, maxsz) ← computeRangeBounds env p size
      let sz ← checkedInt (maxsz - minsz + 1)
      if (list.getSize : Int) ≠ sz then
        trErr [.text "expression \x7b ", .expr list, .text " \x7d should have ", .int sz,
          .text " elements."]
      else do
        let val ← orAssert "0 < getSize ()" list.subs[0]?
        .ok (list.subs.tail.all val.equal, some val)

/-- `is_one_dim_array_variable`. -/
def isOneDimArrayVariable (env : Env) (p : Option Instance) (e : Expr) : Res (Bool × Int × Int) := do
  let (minsz, maxsz, basetype) ← isOneDimArrayType env p e.type
  match basetype with
  | none => .ok (false, minsz, maxsz)
  | some _ =>
      match e.getSymbol? with
      | none => .error (.undefined "null dereference")
      | some s =>
          match env.getData s with
          | none => .ok (true, minsz, maxsz)
          | some var => do
              let (equal, _) ← areAllEqualsInList env p var.expr
              .ok (equal, minsz, maxsz)

end Utot
