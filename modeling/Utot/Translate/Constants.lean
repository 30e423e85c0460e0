import Mathlib.Algebra.Group.Int.Defs
import Utot.Utap.System
import Utot.Translate.Faults

/-!
# Constant expressions

`eval_integer_constant` and `compute_range_bounds`.  The evaluator applies the
native operators of `int`; where C++ leaves their result undefined the model
stops with `Fault.undefined`.
-/

namespace Utot

open Utap

/-! ## Native integers -/

def intMin : Int := -2147483648

def intMax : Int := 2147483647

/-- The result of an operation on `int`; a signed overflow is undefined. -/
def checkedInt (n : Int) : Res Int :=
  if intMin ≤ n ∧ n ≤ intMax then .ok n else .error (.undefined "signed overflow")

/-- `a / b` truncates towards zero. -/
def nativeDiv (a b : Int) : Res Int :=
  if b = 0 then .error (.undefined "division by zero") else checkedInt (a.tdiv b)

/-- `a % b` has the sign of `a`; it is undefined whenever `a / b` is. -/
def nativeMod (a b : Int) : Res Int :=
  if b = 0 then .error (.undefined "division by zero")
  else do
    let _ ← checkedInt (a.tdiv b)
    .ok (a.tmod b)

/-- `a << b` on a nonnegative `a` whose result fits the unsigned type. -/
def nativeShiftLeft (a b : Int) : Res Int :=
  if 0 ≤ b ∧ b < 32 ∧ 0 ≤ a ∧ a * 2 ^ b.toNat < 2 ^ 32 then
    .ok (BitVec.ofInt 32 (a * 2 ^ b.toNat)).toInt
  else .error (.undefined "shift")

/-- `a >> b` is arithmetic. -/
def nativeShiftRight (a b : Int) : Res Int :=
  if 0 ≤ b ∧ b < 32 then .ok (a >>> b.toNat) else .error (.undefined "shift")

/-- A bitwise operator on the two's complement words. -/
def nativeBits (op : BitVec 32 → BitVec 32 → BitVec 32) (a b : Int) : Int :=
  (op (BitVec.ofInt 32 a) (BitVec.ofInt 32 b)).toInt

/-- A C++ `bool` as an `int`. -/
def ofBool (b : Bool) : Int := if b then 1 else 0

/-- The operators that evaluate both operands: the table of `EVAL_BINARY`,
`MIN` and `MAX`. -/
def binaryOp : BinaryKind → Option (Int → Int → Res Int)
  | .plus => some fun a b => checkedInt (a + b)
  | .minus => some fun a b => checkedInt (a - b)
  | .mult => some fun a b => checkedInt (a * b)
  | .div => some nativeDiv
  | .mod => some nativeMod
  | .bitAnd => some fun a b => .ok (nativeBits (· &&& ·) a b)
  | .bitOr => some fun a b => .ok (nativeBits (· ||| ·) a b)
  | .bitXor => some fun a b => .ok (nativeBits (· ^^^ ·) a b)
  | .bitLshift => some nativeShiftLeft
  | .bitRshift => some nativeShiftRight
  | .lt => some fun a b => .ok (ofBool (a < b))
  | .le => some fun a b => .ok (ofBool (a ≤ b))
  | .eq => some fun a b => .ok (ofBool (a = b))
  | .neq => some fun a b => .ok (ofBool (a ≠ b))
  | .ge => some fun a b => .ok (ofBool (b ≤ a))
  | .gt => some fun a b => .ok (ofBool (b < a))
  | .min => some fun a b => .ok (if a < b then a else b)
  | .max => some fun a b => .ok (if a < b then b else a)
  | _ => none

/-! ## Ranges and the evaluator -/

/-- The loop of `compute_range_bounds` over `LABEL` and `CONSTANT` nodes. -/
def stripLabelsAndConst : Ty → Ty
  | .label _ t => stripLabelsAndConst t
  | .pre .constant t => stripLabelsAndConst t
  | t => t

/-- `compute_range_bounds`, over the evaluator it calls. -/
def computeRangeBoundsWith (eval : Expr → Res Int) (tsize : Ty) : Res (Int × Int) := do
  let t := stripLabelsAndConst tsize
  assertThat t.isRange "tsize.isRange ()"
  let base ← orAssert "tsize[0]" t.first?
  assertThat (base.kind == .prim .int || base.kind == .prim .scalar) "tsize[0].getKind ()"
  let bounds ← orAssert "is (RANGE)" t.getRange?
  let min ← eval bounds.1
  let max ← eval bounds.2
  if max < min then trErr [.text "empty range: ", .type t] else .ok (min, max)

/-- `eval_integer_constant`, with the depth of the native stack as its first
argument. -/
def evalAux (env : Env) : Nat → Option Instance → Expr → Res Int
  | 0, _, _ => .error .stackOverflow
  | depth + 1, p, e =>
      if !(e.type.isInteger || e.type.isBoolean || e.type.isScalar) then
        trErr [.text "expression '", .expr e, .text "' is not an integer constant."]
      else match e with
      | .binary .and l r _ => do
          let v1 ← evalAux env depth p l
          if v1 = 0 then .ok 0 else do
            let v2 ← evalAux env depth p r
            .ok (ofBool (v2 ≠ 0))
      | .binary .or l r _ => do
          let v1 ← evalAux env depth p l
          if v1 ≠ 0 then .ok 1 else do
            let v2 ← evalAux env depth p r
            .ok (ofBool (v2 ≠ 0))
      | .binary .array a i _ => do
          let index ← evalAux env depth p i
          assertThat a.type.isArray "a.getType ().isArray ()"
          let size ← orAssert "getKind () == ARRAY" a.type.getArraySize?
          let (min, max) ← computeRangeBoundsWith (evalAux env depth p) size
          if ¬ (min ≤ index ∧ index ≤ max) then
            trErr [.text "array index ", .int index, .text " out of bounds [", .int min,
              .text ", ", .int max, .text "]."]
          else match a with
          | .identifier s _ =>
              match env.getData s with
              | none => .error (.undefined "null dereference")
              | some var =>
                  match var.expr with
                  | none => trErr [.text "don't know how to evaluate this array '", .expr a,
                      .text "'."]
                  | some init => do
                      let cell ← orAssert "i < getSize ()" init.subs[(index - min).toNat]?
                      evalAux env depth p cell
          | _ => trErr [.text "don't know how to evaluate this array '", .expr a, .text "'."]
      | .binary k l r _ =>
          match binaryOp k with
          | some op => do
              let v1 ← evalAux env depth p l
              let v2 ← evalAux env depth p r
              op v1 v2
          | none => trErr [.text "don't known how to translate expression '", .expr e, .text "'."]
      | .unary .not x _ => do
          let v ← evalAux env depth p x
          .ok (ofBool (v = 0))
      | .unary .unaryMinus x _ => do
          let v ← evalAux env depth p x
          checkedInt (-v)
      | .inlineIf c y n _ => do
          let v ← evalAux env depth p c
          if v ≠ 0 then evalAux env depth p y else evalAux env depth p n
      | .identifier s _ =>
          if !(env.getType s).isConstant then
            trErr [.text "symbol '", .text (env.getName s), .text "' is not a constant.\n"]
          else match env.initialiser s with
          | some init => evalAux env depth p init
          | none =>
              match mapped? p s with
              | some argument => evalAux env depth p argument
              | none => trErr [.text "unknown constant symbol '", .symbol s, .text "'.\n"]
      | .constant _ _ => orAssert "isIntegral ()" e.getValue?
      | .nary .list es _ => do
          let a ← orAssert "0 < getSize ()" es[0]?
          let i ← orAssert "1 < getSize ()" es[1]?
          let index ← evalAux env depth p i
          if index < 0 then .error (.assertion "i < getSize ()")
          else do
            let cell ← orAssert "i < getSize ()" a.subs[index.toNat]?
            evalAux env depth p cell
      | _ => trErr [.text "don't known how to translate expression '", .expr e, .text "'."]

/-- `eval_integer_constant`. -/
def evalIntegerConstant (env : Env) (p : Option Instance) (e : Expr) : Res Int :=
  evalAux env env.stack p e

/-- `compute_range_bounds`. -/
def computeRangeBounds (env : Env) (p : Option Instance) (tsize : Ty) : Res (Int × Int) :=
  computeRangeBoundsWith (evalIntegerConstant env p) tsize

end Utot
