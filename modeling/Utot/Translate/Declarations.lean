import Utot.Translate.Arrays
import Utot.Translate.Expressions
import Utot.Translate.Output

/-!
# Declarations

The functions of `utot-decl.cc` that print: one line for a variable, a clock or
a one-dimensional array, one line for each cell of the other arrays.
-/

namespace Utot

open Utap Library

/-! ## Loops over an interval -/

/-- The values of `for (int i = min; i <= max; i++)`. -/
def intRange (min max : Int) : List Int :=
  (List.range (max + 1 - min).toNat).map fun k : Nat => min + k

theorem mem_intRange {min max i : Int} : i ∈ intRange min max ↔ min ≤ i ∧ i ≤ max := by
  rw [intRange, List.mem_map]
  constructor
  · rintro ⟨k, listed, rfl⟩
    rw [List.mem_range] at listed
    omega
  · rintro ⟨lower, upper⟩
    exact ⟨(i - min).toNat, List.mem_range.mpr (by omega), by omega⟩

theorem pairwise_intRange (min max : Int) : (intRange min max).Pairwise (· < ·) := by
  unfold intRange
  rw [List.pairwise_map]
  exact List.pairwise_lt_range.imp fun less => by omega

/-- `for (int i = min; i <= max; i++)`; behind the last `int` the increment
overflows. -/
def forRange (min max : Int) (body : Int → Tr Unit) : Tr Unit := do
  (intRange min max).forM body
  if min ≤ max ∧ max = intMax then fromExcept (.error (.undefined "signed overflow"))

/-! ## Integer variables -/

/-- The loops over `LABEL` nodes. -/
def stripLabels : Ty → Ty
  | .label _ t => stripLabels t
  | t => t

/-- The bounds of an integer variable; a constant takes them from its value. -/
def variableBounds (env : Env) (p : Option Instance) (type : Ty) : Res (Option (Int × Int)) :=
  match type.kind with
  | .prim .bool => .ok (some (0, 1))
  | .range => do
      let bounds ← computeRangeBounds env p type
      .ok (some bounds)
  | _ => .ok none

/-- `s_output_integer_variable`. -/
def sOutputIntegerVariable (env : Env) (p : Option Instance) (vname : String) (type : Ty)
    (init : Option Expr) : Tr Unit := do
  let type := stripLabels type
  let kind := type.kind
  assertTr (kind == .prim .bool || kind == .range || kind == .pre .constant)
    "kind == BOOL || kind == RANGE || kind == CONSTANT"
  let bounds ← fromExcept (variableBounds env p type)
  let initval ← match init, bounds with
    | none, some (min, max) => do
        let initval := if min ≤ 0 ∧ 0 ≤ max then 0 else min
        warn env.verboseLevel [.text "enforcing initial value of variable '", .text vname,
          .text "' to ", .int initval, .text ".\n"]
        pure initval
    | none, none => fromExcept (.error (.undefined "uninitialised bounds"))
    | some e, _ => fromExcept (evalIntegerConstant env p e)
  let (min, max) := bounds.getD (initval, initval)
  if ¬ (min ≤ initval ∧ initval ≤ max) then
    fromExcept (trErr [.text "initial value ", .int initval,
      .text " is out of the domain of variable ", .text vname])
  intvar min max initval vname 1

/-! ## Arrays -/

/-- The name of a cell; the deque `S` holds the innermost index first. -/
def cellName (arrayname : String) (S : List Int) : String :=
  S.reverse.foldl (fun name i => name ++ "_" ++ toString i) arrayname

/-- The line of one cell. -/
def declareCell (env : Env) (p : Option Instance) (name : String) (type : Ty)
    (init : Option Expr) : Tr Unit :=
  match type.kind with
  | .prim .channel => commentln [.text "event to synchronize: ", .text name]
  | .pre .broadcast => commentln [.text "event to synchronize: ", .text name]
  | .pre .urgent => commentln [.text "event to synchronize: ", .text name]
  | .prim .clock => clock name 1
  | _ => sOutputIntegerVariable env p name type init

/-- `noinit ? init : init[i - min]`. -/
def initialCell (init : Option Expr) (index : Int) : Res (Option Expr) :=
  match init with
  | none => .ok none
  | some e => do
      let cell ← orAssert "i < getSize ()" e.subs[index.toNat]?
      .ok (some cell)

/-- `s_enumerate_array_elements_decl`. -/
def sEnumerateArrayElementsDecl (env : Env) (p : Option Instance) (arrayname : String) :
    Ty → Option Expr → List Int → Tr Unit
  | .array subtype size, init, S => do
      let (min, max) ← fromExcept (computeRangeBounds env p size)
      let count ← fromExcept (checkedInt (max - min + 1))
      match init with
      | none => pure ()
      | some e =>
          if count > e.getSize then
            fromExcept (trErr [.text "invalid initializer size for array type: ", .expr e,
              .text "."])
      forRange min max fun i => do
        let cell ← fromExcept (initialCell init (i - min))
        sEnumerateArrayElementsDecl env p arrayname subtype cell (i :: S)
  | type, init, S => declareCell env p (cellName arrayname S) type init

def int16Min : Int := -32768
def int16Max : Int := 32767

/-- The bounds of the cells of a one-dimensional array. -/
def elementBounds (env : Env) (p : Option Instance) (eltype : Ty) : Res (Int × Int) :=
  if eltype.isBoolean then .ok (0, 1)
  else if eltype.isRange then do
    let (lower, upper) ← orAssert "getKind () == RANGE" eltype.getRange?
    let min ← evalIntegerConstant env p lower
    let max ← evalIntegerConstant env p upper
    .ok (min, max)
  else .ok (int16Min, int16Max)

/-- `s_declare_one_dim_array`. -/
def sDeclareOneDimArray (env : Env) (p : Option Instance) (vname : String) (size : Int)
    (eltype : Ty) (init : Option Expr) : Tr Unit := do
  commentln [.text "one dim array."]
  let (min, max) ← fromExcept (elementBounds env p eltype)
  let ival ← match init with
    | none => pure (if 0 ≤ min ∨ max ≤ 0 then min else 0)
    | some e => fromExcept (evalIntegerConstant env p e)
  if min ≤ ival ∧ ival ≤ max then intvar min max ival vname size
  else
    fromExcept (trErr [.text "initial value ", .int ival, .text " is out of range [", .int min,
      .text ",", .int max, .text "] for array '", .text vname, .text "'."])

/-- `s_declare_one_dim_clock_array`. -/
def sDeclareOneDimClockArray (vname : String) (size : Int) : Tr Unit := do
  commentln [.text "one dim clock array."]
  clock vname size

/-- `is_one_dim_array_type (…) && are_all_equals_in_list (…)` with what they
store: the bounds of the index, the type of a cell and its initial value. -/
def oneDimDeclaration (env : Env) (p : Option Instance) (type : Ty) (init : Option Expr) :
    Res (Option (Int × Int × Ty × Option Expr)) := do
  let (minsz, maxsz, basetype) ← isOneDimArrayType env p type
  match basetype with
  | none => .ok none
  | some basetype => do
      let (equal, initval) ← areAllEqualsInList env p init
      .ok (if equal then some (minsz, maxsz, basetype, initval) else none)

/-- The case `ARRAY` of `translate_declarations`. -/
def declareArray (env : Env) (p : Option Instance) (vname : String) (type : Ty)
    (init : Option Expr) : Tr Unit := do
  let oneDim ← fromExcept (oneDimDeclaration env p type init)
  match oneDim with
  | some (minsz, maxsz, basetype, initval) => do
      let sz ← fromExcept (checkedInt (maxsz - minsz + 1))
      if type.stripArray.isClock then sDeclareOneDimClockArray vname sz
      else sDeclareOneDimArray env p vname sz basetype initval
  | none => sEnumerateArrayElementsDecl env p vname type init []

/-! ## All declarations -/

/-- The body of the loop of `translate_declarations`. -/
def declareVariable (env : Env) (p : Option Instance) (ctx : ContextPrefix) (s : Symbol) :
    Tr Unit := do
  let type := stripLabels (env.getType s)
  commentln [.text (env.getName s), .text ":", .type type]
  let vname := addPrefix ctx (env.getName s)
  match type.kind with
  | .pre .constant => sOutputIntegerVariable env p vname type (env.initialiser s)
  | .prim .bool => sOutputIntegerVariable env p vname type (env.initialiser s)
  | .range => sOutputIntegerVariable env p vname type (env.initialiser s)
  | .prim .channel => commentln [.text "global event: ", .text vname]
  | .pre .broadcast => commentln [.text "global event: ", .text vname]
  | .pre .urgent => commentln [.text "global event: ", .text vname]
  | .prim .clock => clock vname 1
  | .array => declareArray env p vname type (env.initialiser s)
  | _ => fromExcept (trErr [.text "don't know what to do with this kind of variable: ",
      .text (env.getName s)])

/-- `translate_declarations`; without an instance the first variable, `t(0)`, is
skipped. -/
def translateDeclarations (env : Env) (p : Option Instance) (ctx : ContextPrefix)
    (decl : Declarations) : Tr Unit :=
  (if p.isNone then decl.vars.tail else decl.vars).forM (declareVariable env p ctx)

/-- The variables `translate_declarations` visits. -/
def visitedVariables (p : Option Instance) (decl : Declarations) : List Symbol :=
  if p.isNone then decl.vars.tail else decl.vars

end Utot
