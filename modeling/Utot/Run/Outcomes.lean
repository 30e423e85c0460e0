import Utot.Layout.Types
import Utot.Library.Outcome
import Utot.Translate.Declarations

/-!
# How the declaration pass ends

Nothing the declaration pass prints has an influence on what it does next, so
its outcome is that of the same functions without their output.
-/

namespace Utot

open Utap Library

/-! ## The pass without its output -/

/-- `outputter::intvar`. -/
def intvarOutcome (min max init : Int) : Res Unit := do
  assertThat (min ≤ max) "min <= max"
  assertThat (min ≤ init && init ≤ max) "min <= init && init <= max"

/-- A loop over an interval. -/
def forRangeOutcome (min max : Int) (body : Int → Res Unit) : Res Unit := do
  (intRange min max).forM body
  if min ≤ max ∧ max = intMax then .error (.undefined "signed overflow")

section

variable (env : Env) (p : Option Instance)

/-- The value of `initval` in `s_output_integer_variable`. -/
def initialValue (init : Option Expr) (bounds : Option (Int × Int)) : Res Int :=
  match init, bounds with
  | none, some (min, max) => .ok (if min ≤ 0 ∧ 0 ≤ max then 0 else min)
  | none, none => .error (.undefined "uninitialised bounds")
  | some e, _ => evalIntegerConstant env p e

/-- `s_output_integer_variable`. -/
def variableOutcome (vname : String) (type : Ty) (init : Option Expr) : Res Unit := do
  let type := stripLabels type
  let kind := type.kind
  assertThat (kind == .prim .bool || kind == .range || kind == .pre .constant)
    "kind == BOOL || kind == RANGE || kind == CONSTANT"
  let bounds ← variableBounds env p type
  let initval ← initialValue env p init bounds
  let (min, max) := bounds.getD (initval, initval)
  if ¬ (min ≤ initval ∧ initval ≤ max) then
    trErr [.text "initial value ", .int initval, .text " is out of the domain of variable ",
      .text vname]
  intvarOutcome min max initval

/-- The line of one cell. -/
def cellOutcome (name : String) (type : Ty) (init : Option Expr) : Res Unit :=
  match type.kind with
  | .prim .channel => .ok ()
  | .pre .broadcast => .ok ()
  | .pre .urgent => .ok ()
  | .prim .clock => .ok ()
  | _ => variableOutcome env p name type init

/-- `s_enumerate_array_elements_decl`. -/
def cellsOutcome (arrayname : String) : Ty → Option Expr → List Int → Res Unit
  | .array subtype size, init, S => do
      let (min, max) ← computeRangeBounds env p size
      let count ← checkedInt (max - min + 1)
      match init with
      | none => .ok ()
      | some e =>
          if count > e.getSize then
            trErr [.text "invalid initializer size for array type: ", .expr e, .text "."]
          else .ok ()
      forRangeOutcome min max fun i => do
        let cell ← initialCell init (i - min)
        cellsOutcome arrayname subtype cell (i :: S)
  | type, init, S => cellOutcome env p (cellName arrayname S) type init

/-- `s_declare_one_dim_array`. -/
def oneDimOutcome (vname : String) (eltype : Ty) (init : Option Expr) : Res Unit := do
  let (min, max) ← elementBounds env p eltype
  let ival ← match init with
    | none => .ok (if 0 ≤ min ∨ max ≤ 0 then min else 0)
    | some e => evalIntegerConstant env p e
  if min ≤ ival ∧ ival ≤ max then intvarOutcome min max ival
  else
    trErr [.text "initial value ", .int ival, .text " is out of range [", .int min, .text ",",
      .int max, .text "] for array '", .text vname, .text "'."]

/-- The case `ARRAY` of `translate_declarations`. -/
def arrayOutcome (vname : String) (type : Ty) (init : Option Expr) : Res Unit := do
  let oneDim ← oneDimDeclaration env p type init
  match oneDim with
  | some (minsz, maxsz, basetype, initval) => do
      let _ ← checkedInt (maxsz - minsz + 1)
      if type.stripArray.isClock then .ok ()
      else oneDimOutcome env p vname basetype initval
  | none => cellsOutcome env p vname type init []

/-- The body of the loop of `translate_declarations`. -/
def declarationOutcome (ctx : ContextPrefix) (s : Symbol) : Res Unit :=
  let type := stripLabels (env.getType s)
  let vname := addPrefix ctx (env.getName s)
  match type.kind with
  | .pre .constant => variableOutcome env p vname type (env.initialiser s)
  | .prim .bool => variableOutcome env p vname type (env.initialiser s)
  | .range => variableOutcome env p vname type (env.initialiser s)
  | .prim .channel => .ok ()
  | .pre .broadcast => .ok ()
  | .pre .urgent => .ok ()
  | .prim .clock => .ok ()
  | .array => arrayOutcome env p vname type (env.initialiser s)
  | _ => trErr [.text "don't know what to do with this kind of variable: ", .text (env.getName s)]

/-- `translate_declarations`. -/
def declarationsOutcome (ctx : ContextPrefix) (decl : Declarations) : Res Unit :=
  (visitedVariables p decl).forM (declarationOutcome env p ctx)

end

/-! ## The outcomes are those of the pass -/

theorem outcome_write (o : Output) : Outcome (write o) (.ok ()) := Outcome.update _

theorem outcome_msg (verboseLevel level : Nat) (args : List Arg) :
    Outcome (msg verboseLevel level args) (.ok ()) := by
  unfold msg
  split
  · exact outcome_write _
  · exact Outcome.ret _

theorem outcome_intvar (min max init : Int) (id : String) (size : Int) :
    Outcome (intvar min max init id size) (intvarOutcome min max init) :=
  Outcome.bind (Outcome.lift _) fun _ => Outcome.finish (Outcome.lift _) fun _ => outcome_write _

theorem outcome_forRange {min max : Int} {body : Int → Tr Unit} {r : Int → Res Unit}
    (round : ∀ i, Outcome (body i) (r i)) :
    Outcome (forRange min max body) (forRangeOutcome min max r) :=
  Outcome.bind (Outcome.forM round) fun _ => Outcome.branch (Outcome.lift _) (Outcome.ret _)

section

variable {env : Env} {p : Option Instance}

theorem outcome_variable (vname : String) (type : Ty) (init : Option Expr) :
    Outcome (sOutputIntegerVariable env p vname type init) (variableOutcome env p vname type init) := by
  refine Outcome.bind (Outcome.lift _) fun _ => Outcome.bind (Outcome.lift _) fun bounds => ?_
  have finish : ∀ initval : Int, Outcome (do
      if ¬ ((bounds.getD (initval, initval)).1 ≤ initval ∧
          initval ≤ (bounds.getD (initval, initval)).2) then
        fromExcept (trErr [.text "initial value ", .int initval,
          .text " is out of the domain of variable ", .text vname])
      intvar (bounds.getD (initval, initval)).1 (bounds.getD (initval, initval)).2 initval vname 1 :
        Tr Unit) (do
      if ¬ ((bounds.getD (initval, initval)).1 ≤ initval ∧
          initval ≤ (bounds.getD (initval, initval)).2) then
        trErr [.text "initial value ", .int initval,
          .text " is out of the domain of variable ", .text vname]
      intvarOutcome (bounds.getD (initval, initval)).1 (bounds.getD (initval, initval)).2 initval) := by
    intro initval
    refine Outcome.branch ?_ (outcome_intvar _ _ _ _ _)
    exact Outcome.bind (Outcome.lift _) fun _ => outcome_intvar _ _ _ _ _
  cases init with
  | some e => exact Outcome.bind (Outcome.lift _) finish
  | none =>
      cases bounds with
      | none => exact Outcome.bind (Outcome.lift _) finish
      | some bounds => exact Outcome.after (outcome_msg _ _ _) (finish _)

theorem outcome_declareCell (name : String) (type : Ty) (init : Option Expr) :
    Outcome (declareCell env p name type init) (cellOutcome env p name type init) := by
  unfold declareCell cellOutcome
  generalize type.kind = kind
  cases kind with
  | prim k => cases k <;> first | exact outcome_write _ | exact outcome_variable _ _ _
  | pre k => cases k <;> first | exact outcome_write _ | exact outcome_variable _ _ _
  | _ => exact outcome_variable _ _ _

theorem outcome_arrayElements (arrayname : String) (type : Ty) (init : Option Expr) (S : List Int) :
    Outcome (sEnumerateArrayElementsDecl env p arrayname type init S)
      (cellsOutcome env p arrayname type init S) := by
  fun_induction cellsOutcome env p arrayname type init S with
  | case1 sub size init S ih =>
      refine Outcome.bind (Outcome.lift _) fun bounds => Outcome.bind (Outcome.lift _) fun count => ?_
      have loop : Outcome (forRange bounds.1 bounds.2 fun i => do
          let cell ← fromExcept (initialCell init (i - bounds.1))
          sEnumerateArrayElementsDecl env p arrayname sub cell (i :: S))
          (forRangeOutcome bounds.1 bounds.2 fun i => do
            let cell ← initialCell init (i - bounds.1)
            cellsOutcome env p arrayname sub cell (i :: S)) :=
        outcome_forRange fun i => Outcome.bind (Outcome.lift _) fun cell => ih i cell
      cases init with
      | none => exact loop
      | some e =>
          dsimp only
          split
          · exact Outcome.bind (Outcome.lift _) fun _ => loop
          · exact loop
  | case2 type init S notArray =>
      cases type with
      | array sub size => exact absurd rfl (notArray sub size)
      | _ => exact outcome_declareCell _ _ _

theorem outcome_oneDimArray (vname : String) (size : Int) (eltype : Ty) (init : Option Expr) :
    Outcome (sDeclareOneDimArray env p vname size eltype init) (oneDimOutcome env p vname eltype init) := by
  refine Outcome.after (outcome_write _) (Outcome.bind (Outcome.lift _) fun bounds => ?_)
  have finish : ∀ ival : Int, Outcome (if bounds.1 ≤ ival ∧ ival ≤ bounds.2 then
        intvar bounds.1 bounds.2 ival vname size
      else
        fromExcept (trErr [.text "initial value ", .int ival, .text " is out of range [",
          .int bounds.1, .text ",", .int bounds.2, .text "] for array '", .text vname,
          .text "'."]) : Tr Unit)
      (if bounds.1 ≤ ival ∧ ival ≤ bounds.2 then intvarOutcome bounds.1 bounds.2 ival
      else
        trErr [.text "initial value ", .int ival, .text " is out of range [", .int bounds.1,
          .text ",", .int bounds.2, .text "] for array '", .text vname, .text "'."]) := fun ival =>
    Outcome.branch (outcome_intvar _ _ _ _ _) (Outcome.lift _)
  cases init with
  | none => exact Outcome.bind (Outcome.ret _) finish
  | some e => exact Outcome.bind (Outcome.lift _) finish

theorem outcome_declareArray (vname : String) (type : Ty) (init : Option Expr) :
    Outcome (declareArray env p vname type init) (arrayOutcome env p vname type init) := by
  refine Outcome.bind (Outcome.lift _) fun oneDim => ?_
  cases oneDim with
  | none => exact outcome_arrayElements _ _ _ _
  | some found =>
      refine Outcome.bind (Outcome.lift _) fun sz => Outcome.branch ?_ (outcome_oneDimArray _ _ _ _)
      exact Outcome.after (outcome_write _) (outcome_write _)

theorem outcome_declareVariable (ctx : ContextPrefix) (s : Symbol) :
    Outcome (declareVariable env p ctx s) (declarationOutcome env p ctx s) := by
  refine Outcome.after (outcome_write _) ?_
  unfold declarationOutcome
  dsimp only
  generalize (stripLabels (env.getType s)).kind = kind
  cases kind with
  | prim k =>
      cases k <;> first | exact outcome_write _ | exact outcome_variable _ _ _ | exact Outcome.lift _
  | pre k =>
      cases k <;> first | exact outcome_write _ | exact outcome_variable _ _ _ | exact Outcome.lift _
  | range => exact outcome_variable _ _ _
  | array => exact outcome_declareArray _ _ _
  | _ => exact Outcome.lift _

/-- The pass ends like the pass without its output. -/
theorem outcome_declarations (ctx : ContextPrefix) (decl : Declarations) :
    Outcome (translateDeclarations env p ctx decl) (declarationsOutcome env p ctx decl) :=
  Outcome.forM fun s => outcome_declareVariable ctx s

end

end Utot
