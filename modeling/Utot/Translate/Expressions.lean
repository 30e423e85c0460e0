import Utot.Translate.Arrays

/-!
# Expressions, updates and channel references

The printers of `utot-expr.cc`.  Each takes the instance whose mapping resolves
parameters and select variables, and the prefix of the names local to a
template; it returns the printed text.
-/

namespace Utot

open Utap

/-! ## Prefixes -/

/-- `context_prefix_t`. -/
abbrev ContextPrefix := List String

/-- `operator <<` on a prefix, which is never called on an empty one. -/
def stringOf (ctx : ContextPrefix) : String := "_".intercalate ctx

/-- `add_prefix`. -/
def addPrefix (ctx : ContextPrefix) (name : String) : String :=
  if ctx.isEmpty then name else stringOf ctx ++ "_" ++ name

/-- The name printed for a symbol that is not in the mapping. -/
def symbolName (env : Env) (ctx : ContextPrefix) (s : Symbol) : String :=
  if env.hasParent s then addPrefix ctx (env.getName s) else env.getName s

/-! ## Tables of operators -/

/-- The kinds `translate_expression` prints with `BINARY_OP`. -/
def binaryText : BinaryKind → Option String
  | .plus => some "+"
  | .minus => some "-"
  | .mult => some "*"
  | .div => some "/"
  | .mod => some "%"
  | .and => some "&&"
  | .lt => some "<"
  | .le => some "<="
  | .eq => some "=="
  | .neq => some "!="
  | .ge => some ">="
  | .gt => some ">"
  | _ => none

/-- The binary kinds it rejects with `UNSUPPORTED`. -/
def unsupportedBinary : BinaryKind → Option String
  | .bitAnd => some "&"
  | .bitOr => some "|"
  | .bitXor => some "^"
  | .bitLshift => some "<<"
  | .bitRshift => some ">>"
  | .assign => some "="
  | .assPlus => some "+"
  | .assMinus => some "-"
  | .assDiv => some "/"
  | .assMod => some "%"
  | .assMult => some "*"
  | .assAnd => some "&"
  | .assOr => some "|"
  | .assXor => some "^"
  | .assLshift => some "<<"
  | .assRshift => some ">>"
  | .comma => some ","
  | .min => some "min"
  | .max => some "max"
  | _ => none

/-- The unary kinds it rejects with `UNSUPPORTED`. -/
def unsupportedUnary : UnaryKind → Option String
  | .dot => some "."
  | .postIncrement => some "++"
  | .preIncrement => some "++"
  | .postDecrement => some "--"
  | .preDecrement => some "--"
  | _ => none

/-- The kinds with a list of operands it rejects with `UNSUPPORTED`. -/
def unsupportedNary : NaryKind → Option String
  | .list => some "list"
  | .funcall => some "function call"
  | .builtin _ => none

/-- `s_unsupported_operator`, and the default of `translate_expression`. -/
def rejectExpression (e : Expr) : Option String → Res String
  | some op => trErr [.text "operator '", .text op, .text "' is not supported."]
  | none => trErr [.text "don't known how to translate expression '", .expr e, .text "'."]

/-! ## Channel references -/

/-- `translate_event_expression`, with the depth of the native stack. -/
def translateEventAux (env : Env) : Nat → Option Instance → Expr → ContextPrefix → Res String
  | 0, _, _, _ => .error .stackOverflow
  | depth + 1, p, e, ctx =>
      match e with
      | .identifier s _ =>
          match mapped? p s with
          | some argument => translateEventAux env depth p argument ctx
          | none => .ok (symbolName env ctx s)
      | .binary .array a i _ => do
          let index ← evalIntegerConstant env p i
          let size ← orAssert "getKind () == ARRAY" a.type.getArraySize?
          let (minsz, maxsz) ← computeRangeBounds env p size
          if minsz ≤ index ∧ index ≤ maxsz then do
            let text ← translateEventAux env depth p a ctx
            let again ← evalIntegerConstant env p i
            .ok (text ++ "_" ++ toString again)
          else
            trErr [.text "array index '", .int index, .text "' out of bounds [", .int minsz,
              .text ", ", .int maxsz, .text "]."]
      | .sync _ channel => translateEventAux env depth p channel ctx
      | _ => trErr [.text "don't known how to translate event expression '", .expr e, .text "'."]

/-- `translate_event_expression`. -/
def translateEventExpression (env : Env) (p : Option Instance) (e : Expr) (ctx : ContextPrefix) :
    Res String :=
  translateEventAux env env.stack p e ctx

/-! ## Expressions -/

/-- What follows the index of a cell whose array does not start at 0. -/
def offsetText (minsz : Int) : String := if minsz ≠ 0 then "-" ++ toString minsz else ""

/-- `translate_expression`, with the depth of the native stack. -/
def translateAux (env : Env) : Nat → Option Instance → Expr → ContextPrefix → Res String
  | 0, _, _, _ => .error .stackOverflow
  | depth + 1, p, e, ctx =>
      match e with
      | .unary .not x _ => do
          let text ← translateAux env depth p x ctx
          .ok ("!(" ++ text ++ ")")
      | .unary .unaryMinus x _ => do
          let text ← translateAux env depth p x ctx
          .ok ("-(" ++ text ++ ")")
      | .unary k _ _ => rejectExpression e (unsupportedUnary k)
      | .binary .or l r _ => do
          let left ← translateAux env depth p l ctx
          let right ← translateAux env depth p r ctx
          .ok ("!(!(" ++ left ++ ") && !(" ++ right ++ "))")
      | .binary .array a i _ => do
          let (oneDim, minsz, maxsz) ← isOneDimArrayVariable env p a
          if oneDim then do
            let text ← translateAux env depth p a ctx
            let index ← translateAux env depth p i ctx
            .ok (text ++ "[" ++ index ++ offsetText minsz ++ "]")
          else do
            let index ← evalIntegerConstant env p i
            if minsz ≤ index ∧ index ≤ maxsz then do
              let text ← translateAux env depth p a ctx
              .ok (text ++ "_" ++ toString index)
            else
              trErr [.text "array index '", .int index, .text "' out of bounds [", .int minsz,
                .text ", ", .int maxsz, .text "]."]
      | .binary k l r _ =>
          match binaryText k with
          | some op => do
              let left ← translateAux env depth p l ctx
              let right ← translateAux env depth p r ctx
              .ok ("(" ++ left ++ " " ++ op ++ " " ++ right ++ ")")
          | none => rejectExpression e (unsupportedBinary k)
      | .inlineIf c y n _ => do
          let cond ← translateAux env depth p c ctx
          let yes ← translateAux env depth p y ctx
          let no ← translateAux env depth p n ctx
          .ok ("(if " ++ cond ++ " then " ++ yes ++ " else " ++ no ++ ")")
      | .identifier s _ =>
          match mapped? p s with
          | some argument => translateAux env depth p argument ctx
          | none => .ok (symbolName env ctx s)
      | .constant _ _ => do
          let value ← orAssert "isIntegral ()" e.getValue?
          .ok (toString value)
      | .sync _ _ => translateEventAux env depth p e ctx
      | .nary k _ _ => rejectExpression e (unsupportedNary k)

/-- `translate_expression`. -/
def translateExpression (env : Env) (p : Option Instance) (e : Expr) (ctx : ContextPrefix) :
    Res String :=
  translateAux env env.stack p e ctx

/-! ## Updates -/

/-- `tchecker::DO_NOP`. -/
def doNop : String := "nop"

/-- The kinds `translate_assignment` prints with `ASSIGN_OP`. -/
def assignOpText : BinaryKind → Option String
  | .assPlus => some "+"
  | .assMinus => some "-"
  | .assDiv => some "/"
  | .assMod => some "%"
  | .assMult => some "*"
  | _ => none

/-- The kinds it prints with `ASSIGN_INCDEC`. -/
def incDecText : UnaryKind → Option String
  | .postIncrement => some "+"
  | .preIncrement => some "+"
  | .postDecrement => some "-"
  | .preDecrement => some "-"
  | _ => none

/-- The binary kinds it rejects with `UNSUPPORTED`. -/
def unsupportedAssignment : BinaryKind → Option String
  | .assAnd => some "&"
  | .assOr => some "|"
  | .assXor => some "^"
  | .assLshift => some "<<"
  | .assRshift => some ">>"
  | _ => none

/-- `s_not_an_assignment`. -/
def notAnAssignment (e : Expr) : Res String :=
  trErr [.text " expression '", .expr e, .text "' is not an assignment."]

/-- The kinds that reach the default of `translate_assignment`. -/
def isUnknownToAssignment : Expr → Bool
  | .unary .rate _ _ => true
  | .binary .xor _ _ _ => true
  | .binary .fraction _ _ _ => true
  | .nary (.builtin _) _ _ => true
  | .sync _ _ => true
  | _ => false

/-- `s_assign_binary_op`. -/
def assignBinaryOp (env : Env) (p : Option Instance) (var : Expr) (op : String) (arg : Expr)
    (ctx : ContextPrefix) : Res String := do
  let target ← translateExpression env p var ctx
  let operand ← translateExpression env p var ctx
  let text ← translateExpression env p arg ctx
  .ok (target ++ "=" ++ operand ++ op ++ text)

/-- `translate_assignment`. -/
def translateAssignment (env : Env) (p : Option Instance) (e : Expr) (ctx : ContextPrefix) :
    Res String :=
  match e with
  | .binary .assign l r _ => do
      let target ← translateExpression env p l ctx
      let text ← translateExpression env p r ctx
      .ok (target ++ "=" ++ text)
  | .binary .comma l r _ => do
      let first ← translateAssignment env p l ctx
      let second ← translateAssignment env p r ctx
      .ok (first ++ ";" ++ second)
  | .binary k l r _ =>
      match assignOpText k, unsupportedAssignment k with
      | some op, _ => assignBinaryOp env p l op r ctx
      | none, some op => trErr [.text "operator '", .text op, .text "' is not supported."]
      | none, none =>
          if isUnknownToAssignment e then rejectExpression e none else notAnAssignment e
  | .unary k x _ =>
      match incDecText k with
      | some op => assignBinaryOp env p x op (Expr.createConstant 1) ctx
      | none => if isUnknownToAssignment e then rejectExpression e none else notAnAssignment e
  | .constant _ _ => do
      let value ← evalIntegerConstant env none e
      if value = 0 then notAnAssignment e else .ok doNop
  | _ => if isUnknownToAssignment e then rejectExpression e none else notAnAssignment e

end Utot
