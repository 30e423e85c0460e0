import Utot.Library.Failure
import Utot.Run.Declarations
import Utot.Translate.Model

/-!
# What a translation throws

Every error of the translator is raised by `tr_err`, an assertion, or a step
without defined behaviour.  `tr_err` throws through a reference to the base
class, so no `translation_exception` leaves any function of the translator, and
the handler of `translate_model` never runs.
-/

namespace Utot

open Utap Library Tchecker

/-- What is thrown is a plain `exception`. -/
def Sliced : Fault → Prop
  | .thrown cls _ => cls = .exception
  | .assertion _ => True
  | .undefined _ => True
  | .stackOverflow => True

/-- The assertion of `s_output_integer_variable` on the kind of a variable. -/
def kindAssertion : String := "kind == BOOL || kind == RANGE || kind == CONSTANT"

/-- A condition on errors that excludes at most that assertion, and the exceptions
no function of the translator throws. -/
structure Admits (E : Fault → Prop) : Prop where
  thrown : ∀ args, E (.thrown .exception args)
  undefined : ∀ what, E (.undefined what)
  overflow : E .stackOverflow
  asserted : ∀ what, what ≠ kindAssertion → E (.assertion what)

/-! ## Computations -/

namespace Admits

variable {E : Fault → Prop} (admits : Admits E)

include admits

theorem trErr {α : Type} (args : List Arg) : Fails E (Utot.trErr args : Res α) :=
  Fails.raise (admits.thrown args)

theorem assertThat (condition : Bool) {what : String} (other : what ≠ kindAssertion) :
    Fails E (Utot.assertThat condition what) :=
  Fails.branch (Fails.ret _) (Fails.raise (admits.asserted what other))

theorem orAssert {α : Type} {what : String} (other : what ≠ kindAssertion) (a : Option α) :
    Fails E (Utot.orAssert what a) := by
  cases a with
  | none => exact Fails.raise (admits.asserted what other)
  | some a => exact Fails.ret a

theorem checkedInt (n : Int) : Fails E (Utot.checkedInt n) :=
  Fails.branch (Fails.ret _) (Fails.raise (admits.undefined _))

theorem binaryOp {k : BinaryKind} {op : Int → Int → Res Int} (listed : Utot.binaryOp k = some op)
    (a b : Int) : Fails E (op a b) := by
  cases k with
  | plus => cases listed; exact admits.checkedInt _
  | minus => cases listed; exact admits.checkedInt _
  | mult => cases listed; exact admits.checkedInt _
  | div => cases listed; exact Fails.branch (Fails.raise (admits.undefined _)) (admits.checkedInt _)
  | mod =>
      cases listed
      exact Fails.branch (Fails.raise (admits.undefined _))
        (Fails.bind (admits.checkedInt _) fun _ => Fails.ret _)
  | bitLshift => cases listed; exact Fails.branch (Fails.ret _) (Fails.raise (admits.undefined _))
  | bitRshift => cases listed; exact Fails.branch (Fails.ret _) (Fails.raise (admits.undefined _))
  | bitAnd | bitOr | bitXor => cases listed; exact Fails.ret _
  | lt | le | eq | neq | ge | gt | min | max => cases listed; exact Fails.ret _
  | _ => cases listed

theorem rangeBounds {eval : Expr → Res Int} (evals : ∀ e, Fails E (eval e)) (t : Ty) :
    Fails E (computeRangeBoundsWith eval t) := by
  refine Fails.bind (admits.assertThat _ (by decide)) fun _ => ?_
  refine Fails.bind (admits.orAssert (by decide) _) fun _ => ?_
  refine Fails.bind (admits.assertThat _ (by decide)) fun _ => ?_
  refine Fails.bind (admits.orAssert (by decide) _) fun bounds => ?_
  refine Fails.bind (evals _) fun _ => Fails.bind (evals _) fun _ => ?_
  exact Fails.branch (admits.trErr _) (Fails.ret _)

theorem evalAux (env : Env) (depth : Nat) (p : Option Instance) (e : Expr) :
    Fails E (Utot.evalAux env depth p e) := by
  induction depth generalizing e with
  | zero => exact Fails.raise admits.overflow
  | succ depth ih =>
      unfold Utot.evalAux
      refine Fails.branch (admits.trErr _) ?_
      split
      · exact Fails.bind (ih _) fun _ => Fails.branch (Fails.ret _)
          (Fails.bind (ih _) fun _ => Fails.ret _)
      · exact Fails.bind (ih _) fun _ => Fails.branch (Fails.ret _)
          (Fails.bind (ih _) fun _ => Fails.ret _)
      · refine Fails.bind (ih _) fun _ => Fails.bind (admits.assertThat _ (by decide)) fun _ => ?_
        refine Fails.bind (admits.orAssert (by decide) _) fun _ => ?_
        refine Fails.bind (admits.rangeBounds ih _) fun _ => ?_
        refine Fails.branch (admits.trErr _) ?_
        split
        · split
          · exact Fails.raise (admits.undefined _)
          · split
            · exact admits.trErr _
            · exact Fails.bind (admits.orAssert (by decide) _) fun _ => ih _
        · exact admits.trErr _
      · split
        · rename_i listed
          exact Fails.bind (ih _) fun _ => Fails.bind (ih _) fun _ => admits.binaryOp listed _ _
        · exact admits.trErr _
      · exact Fails.bind (ih _) fun _ => Fails.ret _
      · exact Fails.bind (ih _) fun _ => admits.checkedInt _
      · exact Fails.bind (ih _) fun _ => Fails.branch (ih _) (ih _)
      · refine Fails.branch (admits.trErr _) ?_
        split
        · exact ih _
        · split
          · exact ih _
          · exact admits.trErr _
      · exact admits.orAssert (by decide) _
      · refine Fails.bind (admits.orAssert (by decide) _) fun _ => ?_
        refine Fails.bind (admits.orAssert (by decide) _) fun _ => ?_
        refine Fails.bind (ih _) fun _ => Fails.branch (Fails.raise (admits.asserted _ (by decide))) ?_
        exact Fails.bind (admits.orAssert (by decide) _) fun _ => ih _
      · exact admits.trErr _

theorem constant (env : Env) (p : Option Instance) (e : Expr) :
    Fails E (evalIntegerConstant env p e) := admits.evalAux env env.stack p e

theorem bounds (env : Env) (p : Option Instance) (t : Ty) :
    Fails E (computeRangeBounds env p t) := admits.rangeBounds (admits.constant env p) t

theorem oneDimType (env : Env) (p : Option Instance) (t : Ty) :
    Fails E (isOneDimArrayType env p t) := by
  refine Fails.bind (admits.assertThat _ (by decide)) fun _ => ?_
  refine Fails.bind (admits.orAssert (by decide) _) fun _ => ?_
  refine Fails.bind (admits.bounds env p _) fun _ => ?_
  refine Fails.bind (admits.orAssert (by decide) _) fun _ => ?_
  exact Fails.branch (Fails.ret _) (Fails.ret _)

theorem allEqual (env : Env) (p : Option Instance) (init : Option Expr) :
    Fails E (areAllEqualsInList env p init) := by
  cases init with
  | none => exact Fails.ret _
  | some e =>
      have named : Fails E (namedInitialiser env e) := by
        unfold namedInitialiser
        split
        · split
          · exact Fails.raise (admits.undefined _)
          · split
            · exact admits.trErr _
            · exact Fails.ret _
        · exact Fails.ret _
      refine Fails.bind (admits.assertThat _ (by decide)) fun _ => Fails.bind named fun _ => ?_
      refine Fails.bind (admits.orAssert (by decide) _) fun _ => ?_
      refine Fails.bind (admits.bounds env p _) fun _ => ?_
      refine Fails.bind (admits.checkedInt _) fun _ => Fails.branch (admits.trErr _) ?_
      exact Fails.bind (admits.orAssert (by decide) _) fun _ => Fails.ret _

end Admits

theorem sliced : Admits Sliced := ⟨fun _ => rfl, fun _ => trivial, trivial, fun _ _ => trivial⟩

theorem fails_oneDimVariable (env : Env) (p : Option Instance) (e : Expr) :
    Fails Sliced (isOneDimArrayVariable env p e) := by
  refine Fails.bind (sliced.oneDimType env p _) fun found => ?_
  dsimp only
  split
  · exact Fails.ret _
  · split
    · exact Fails.raise trivial
    · split
      · exact Fails.ret _
      · exact Fails.bind (sliced.allEqual env p _) fun _ => Fails.ret _

theorem fails_reject (e : Expr) (op : Option String) : Fails Sliced (rejectExpression e op) := by
  cases op with
  | none => exact sliced.trErr _
  | some op => exact sliced.trErr _

theorem fails_event (env : Env) (depth : Nat) (p : Option Instance) (e : Expr)
    (ctx : ContextPrefix) : Fails Sliced (translateEventAux env depth p e ctx) := by
  induction depth generalizing e with
  | zero => exact Fails.raise trivial
  | succ depth ih =>
      unfold translateEventAux
      split
      · split
        · exact ih _
        · exact Fails.ret _
      · refine Fails.bind (sliced.constant env p _) fun _ => ?_
        refine Fails.bind (sliced.orAssert (by decide) _) fun _ => ?_
        refine Fails.bind (sliced.bounds env p _) fun _ => Fails.branch ?_ (sliced.trErr _)
        exact Fails.bind (ih _) fun _ => Fails.bind (sliced.constant env p _) fun _ => Fails.ret _
      · exact ih _
      · exact sliced.trErr _

theorem fails_translateAux (env : Env) (depth : Nat) (p : Option Instance) (e : Expr)
    (ctx : ContextPrefix) : Fails Sliced (translateAux env depth p e ctx) := by
  induction depth generalizing e with
  | zero => exact Fails.raise trivial
  | succ depth ih =>
      unfold translateAux
      split
      · exact Fails.bind (ih _) fun _ => Fails.ret _
      · exact Fails.bind (ih _) fun _ => Fails.ret _
      · exact fails_reject _ _
      · exact Fails.bind (ih _) fun _ => Fails.bind (ih _) fun _ => Fails.ret _
      · refine Fails.bind (fails_oneDimVariable env p _) fun _ => Fails.branch ?_ ?_
        · exact Fails.bind (ih _) fun _ => Fails.bind (ih _) fun _ => Fails.ret _
        · refine Fails.bind (sliced.constant env p _) fun _ => Fails.branch ?_ (sliced.trErr _)
          exact Fails.bind (ih _) fun _ => Fails.ret _
      · split
        · exact Fails.bind (ih _) fun _ => Fails.bind (ih _) fun _ => Fails.ret _
        · exact fails_reject _ _
      · exact Fails.bind (ih _) fun _ => Fails.bind (ih _) fun _ =>
          Fails.bind (ih _) fun _ => Fails.ret _
      · split
        · exact ih _
        · exact Fails.ret _
      · exact Fails.bind (sliced.orAssert (by decide) _) fun _ => Fails.ret _
      · exact fails_event env depth p _ ctx
      · exact fails_reject _ _

theorem fails_expression (env : Env) (p : Option Instance) (e : Expr) (ctx : ContextPrefix) :
    Fails Sliced (translateExpression env p e ctx) := fails_translateAux env env.stack p e ctx

theorem fails_assignBinaryOp (env : Env) (p : Option Instance) (var : Expr) (op : String)
    (arg : Expr) (ctx : ContextPrefix) : Fails Sliced (assignBinaryOp env p var op arg ctx) :=
  Fails.bind (fails_expression env p var ctx) fun _ =>
    Fails.bind (fails_expression env p var ctx) fun _ =>
      Fails.bind (fails_expression env p arg ctx) fun _ => Fails.ret _

theorem fails_default (e : Expr) :
    Fails Sliced (if isUnknownToAssignment e then rejectExpression e none else notAnAssignment e) :=
  Fails.branch (fails_reject _ _) (sliced.trErr _)

theorem fails_assignment (env : Env) (p : Option Instance) (e : Expr) (ctx : ContextPrefix) :
    Fails Sliced (translateAssignment env p e ctx) := by
  fun_induction translateAssignment env p e ctx with
  | case1 => exact Fails.bind (fails_expression env p _ ctx) fun _ =>
      Fails.bind (fails_expression env p _ ctx) fun _ => Fails.ret _
  | case2 l r t left right => exact Fails.bind left fun _ => Fails.bind (right) fun _ => Fails.ret _
  | case3 => exact fails_assignBinaryOp env p _ _ _ ctx
  | case4 => exact sliced.trErr _
  | case5 => exact fails_default _
  | case6 => exact fails_default _
  | case7 => exact fails_assignBinaryOp env p _ _ _ ctx
  | case8 => exact fails_default _
  | case9 => exact fails_default _
  | case10 => exact Fails.bind (sliced.constant env none _) fun _ =>
      Fails.branch (sliced.trErr _) (Fails.ret _)
  | case11 => exact fails_default _
  | case12 => exact fails_default _

theorem fails_enumeration (env : Env) (p : Instance) (s : Symbol) :
    Fails Sliced (enumerationBounds env p s) := by
  refine Fails.branch (sliced.trErr _) (Fails.bind (sliced.orAssert (by decide) _) fun _ => ?_)
  exact Fails.bind (sliced.constant env _ _) fun _ =>
    Fails.bind (sliced.constant env _ _) fun _ => Fails.ret _

theorem fails_ioSections (env : Env) (decls : Declarations)
    (allowed : Std.TreeMap String EventSet) : Fails Sliced (sRegisterIodecl env decls allowed) := by
  have labels : ∀ es, Fails Sliced (sectionLabels env es) := by
    intro es
    induction es with
    | nil => exact Fails.ret _
    | cons e es ih =>
        exact Fails.bind (fails_expression env none e []) fun _ => Fails.bind ih fun _ => Fails.ret _
  refine Fails.foldlM (fun _ _ => Fails.branch (Fails.ret _) ?_) allowed
  exact Fails.bind (labels _) fun _ => Fails.ret _

/-! ## Programs -/

section

variable {E : Fault → Prop}

theorem throws_write (o : Output) : Throws E (write o) := Throws.update _

theorem throws_msg (verboseLevel level : Nat) (args : List Arg) :
    Throws E (msg verboseLevel level args) :=
  Throws.branch (throws_write _) (Throws.ret _)

theorem throws_intvar (admits : Admits E) (min max init : Int) (id : String) (size : Int) :
    Throws E (intvar min max init id size) :=
  Throws.bind (Throws.lift (admits.assertThat _ (by decide))) fun _ =>
    Throws.bind (Throws.lift (admits.assertThat _ (by decide))) fun _ => throws_write _

theorem throws_forRange (admits : Admits E) {min max : Int} {body : Int → Tr Unit}
    (round : ∀ i, Throws E (body i)) : Throws E (forRange min max body) := by
  refine Throws.bind (Throws.forM round) fun _ => ?_
  exact Throws.branch (Throws.lift (Fails.raise (admits.undefined _))) (Throws.ret _)

/-- The kinds `s_output_integer_variable` asserts. -/
def isVariableKind (k : Kind) : Bool :=
  k == .prim .bool || k == .range || k == .pre .constant

theorem throws_integerVariable (admits : Admits E) (env : Env) (p : Option Instance)
    (vname : String) {type : Ty}
    (kinds : isVariableKind (stripLabels type).kind = true ∨ E (.assertion kindAssertion))
    (init : Option Expr) : Throws E (sOutputIntegerVariable env p vname type init) := by
  have bounded : Fails E (variableBounds env p (stripLabels type)) := by
    unfold variableBounds
    split
    · exact Fails.ret _
    · exact Fails.bind (admits.bounds env p _) fun _ => Fails.ret _
    · exact Fails.ret _
  have asserted : Fails E (assertThat (isVariableKind (stripLabels type).kind) kindAssertion) := by
    unfold assertThat
    rcases kinds with kinds | excluded
    · rw [if_pos kinds]
      exact Fails.ret _
    · exact Fails.branch (Fails.ret _) (Fails.raise excluded)
  refine Throws.bind (Throws.lift asserted) fun _ => Throws.bind (Throws.lift bounded) fun bounds => ?_
  have finish : ∀ initval : Int, Throws E (do
      if ¬ ((bounds.getD (initval, initval)).1 ≤ initval ∧
          initval ≤ (bounds.getD (initval, initval)).2) then
        fromExcept (trErr [.text "initial value ", .int initval,
          .text " is out of the domain of variable ", .text vname])
      intvar (bounds.getD (initval, initval)).1 (bounds.getD (initval, initval)).2 initval vname 1 :
        Tr Unit) := by
    intro initval
    split
    · exact Throws.bind (Throws.lift (admits.trErr _)) fun _ => throws_intvar admits _ _ _ _ _
    · exact throws_intvar admits _ _ _ _ _
  cases init with
  | some e => exact Throws.bind (Throws.lift (admits.constant env p e)) finish
  | none =>
      cases bounds with
      | none => exact Throws.bind (Throws.lift (Fails.raise (admits.undefined _))) finish
      | some bounds =>
          exact Throws.bind (throws_msg _ _ _) fun _ => Throws.bind (Throws.ret _) finish

theorem fails_initialCell (admits : Admits E) (init : Option Expr) (index : Int) :
    Fails E (initialCell init index) := by
  cases init with
  | none => exact Fails.ret _
  | some e => exact Fails.bind (admits.orAssert (by decide) _) fun _ => Fails.ret _

end

theorem throws_assert (condition : Bool) (what : String) : Throws Sliced (assertTr condition what) :=
  Throws.lift (Fails.branch (Fails.ret _) (Fails.raise trivial))

theorem throws_declareCell (env : Env) (p : Option Instance) (name : String) (type : Ty)
    (init : Option Expr) : Throws Sliced (declareCell env p name type init) := by
  unfold declareCell
  split
  · exact throws_write _
  · exact throws_write _
  · exact throws_write _
  · exact throws_write _
  · exact throws_integerVariable sliced env p name (.inr trivial) init

theorem throws_arrayElements (env : Env) (p : Option Instance) (arrayname : String) (type : Ty)
    (init : Option Expr) (S : List Int) :
    Throws Sliced (sEnumerateArrayElementsDecl env p arrayname type init S) := by
  fun_induction sEnumerateArrayElementsDecl env p arrayname type init S with
  | case1 sub size init S cells =>
      refine Throws.bind (Throws.lift (sliced.bounds env p _)) fun bounds =>
        Throws.bind (Throws.lift (sliced.checkedInt _)) fun count => ?_
      have loop : Throws Sliced (forRange bounds.1 bounds.2 fun i => do
          let cell ← fromExcept (initialCell init (i - bounds.1))
          sEnumerateArrayElementsDecl env p arrayname sub cell (i :: S)) :=
        throws_forRange sliced fun i => Throws.bind (Throws.lift (fails_initialCell sliced _ _))
          fun cell => cells i cell
      cases init with
      | none => exact loop
      | some e =>
          dsimp only
          split
          · exact Throws.bind (Throws.lift (sliced.trErr _)) fun _ => loop
          · exact loop
  | case2 type init S notArray => exact throws_declareCell env p _ type init

theorem throws_oneDimArray (env : Env) (p : Option Instance) (vname : String) (size : Int)
    (eltype : Ty) (init : Option Expr) :
    Throws Sliced (sDeclareOneDimArray env p vname size eltype init) := by
  have bounded : Fails Sliced (elementBounds env p eltype) := by
    refine Fails.branch (Fails.ret _) (Fails.branch ?_ (Fails.ret _))
    exact Fails.bind (sliced.orAssert (by decide) _) fun _ => Fails.bind (sliced.constant env p _) fun _ =>
      Fails.bind (sliced.constant env p _) fun _ => Fails.ret _
  refine Throws.bind (throws_write _) fun _ => Throws.bind (Throws.lift bounded) fun bounds => ?_
  have finish : ∀ ival : Int, Throws Sliced (if bounds.1 ≤ ival ∧ ival ≤ bounds.2 then
        intvar bounds.1 bounds.2 ival vname size
      else
        fromExcept (trErr [.text "initial value ", .int ival, .text " is out of range [",
          .int bounds.1, .text ",", .int bounds.2, .text "] for array '", .text vname,
          .text "'."]) : Tr Unit) := fun ival =>
    Throws.branch (throws_intvar sliced _ _ _ _ _) (Throws.lift (sliced.trErr _))
  cases init with
  | none => exact Throws.bind (Throws.ret _) finish
  | some e => exact Throws.bind (Throws.lift (sliced.constant env p e)) finish

theorem throws_declareArray (env : Env) (p : Option Instance) (vname : String) (type : Ty)
    (init : Option Expr) : Throws Sliced (declareArray env p vname type init) := by
  have decided : Fails Sliced (oneDimDeclaration env p type init) := by
    refine Fails.bind (sliced.oneDimType env p type) fun found => ?_
    dsimp only
    split
    · exact Fails.ret _
    · exact Fails.bind (sliced.allEqual env p init) fun _ => Fails.ret _
  refine Throws.bind (Throws.lift decided) fun oneDim => ?_
  cases oneDim with
  | none => exact throws_arrayElements env p vname type init []
  | some found =>
      refine Throws.bind (Throws.lift (sliced.checkedInt _)) fun sz => Throws.branch ?_ ?_
      · exact Throws.bind (throws_write _) fun _ => throws_write _
      · exact throws_oneDimArray env p vname sz _ _

theorem throws_declarations (env : Env) (p : Option Instance) (ctx : ContextPrefix)
    (decl : Declarations) : Throws Sliced (translateDeclarations env p ctx decl) := by
  refine Throws.forM fun s => Throws.bind (throws_write _) fun _ => ?_
  dsimp only
  split
  · exact throws_integerVariable sliced env p _ (.inr trivial) _
  · exact throws_integerVariable sliced env p _ (.inr trivial) _
  · exact throws_integerVariable sliced env p _ (.inr trivial) _
  · exact throws_write _
  · exact throws_write _
  · exact throws_write _
  · exact throws_write _
  · exact throws_declareArray env p _ _ _
  · exact Throws.lift (sliced.trErr _)

theorem throws_states (env : Env) (ctx : ContextPrefix) (p : Instance) :
    Throws Sliced (sTranslateStates env ctx p) := by
  refine Throws.forM fun s => Throws.bind (Throws.lift ?_) fun _ => throws_write _
  unfold stateAttributes
  dsimp only
  cases s.invariant with
  | none => exact Fails.bind (Fails.ret _) fun _ => Fails.ret _
  | some invariant =>
      exact Fails.bind (fails_expression env _ _ ctx) fun _ =>
        Fails.bind (Fails.ret _) fun _ => Fails.ret _

theorem throws_buildEdgeLabel (env : Env) (kind : SyncKind) (channel : Expr) (ctx : ContextPrefix)
    (p : Instance) : Throws Sliced (sBuildEdgeLabel env kind channel ctx p) := by
  have event : ∀ written ev s, Throws Sliced (declareEvent env written (.sync kind channel) ev s) := by
    intro written ev s
    refine Throws.bind Throws.read fun st => ?_
    dsimp only
    split
    · have finish : Throws Sliced (do
          writeLine (.event ev)
          modify fun st => { st with
            events := { st.events with
              labels := st.events.labels.insert ev
              brodcasts := if sIsBroadcast env written then st.events.brodcasts.insert s
                else st.events.brodcasts } } : Tr Unit) :=
        Throws.bind (throws_write _) fun _ => Throws.update _
      split
      · exact Throws.bind (throws_msg _ _ _) fun _ => finish
      · exact finish
    · exact Throws.ret _
  have localEvent : ∀ s, Throws Sliced (declareLocalEvent s) := by
    intro s
    refine Throws.bind Throws.read fun st => ?_
    split
    · exact Throws.bind (throws_write _) fun _ => Throws.update _
    · exact Throws.ret _
  unfold sBuildEdgeLabel
  dsimp only
  split
  · exact Throws.lift (Fails.raise trivial)
  · rename_i written _
    refine Throws.bind (throws_msg _ _ _) fun _ =>
      Throws.bind (Throws.lift (fails_expression env _ _ _)) fun s => ?_
    have finish : Throws Sliced (do
        declareEvent env written (.sync kind channel) (eventOf kind s) s
        modify fun st => { st with events := recordEvent st.events kind s (stringOf ctx) }
        pure (eventOf kind s) : Tr String) :=
      Throws.bind (event _ _ _) fun _ => Throws.bind (Throws.update _) fun _ => Throws.ret _
    split
    · exact Throws.bind (localEvent s) fun _ => finish
    · exact finish

theorem throws_edge (env : Env) (e : Edge) (ctx : ContextPrefix) (p : Instance) :
    Throws Sliced (sTranslateEdge env e ctx p) := by
  have label : Throws Sliced (edgeEvent env e ctx p) := by
    unfold edgeEvent
    split
    · exact Throws.ret _
    · exact throws_buildEdgeLabel env _ _ ctx p
    · exact Throws.lift (Fails.raise trivial)
  have named : ∀ end', Fails Sliced (endName env end') := by
    intro end'
    cases end' with
    | none => exact Fails.raise trivial
    | some s => exact Fails.ret _
  have attributes : Fails Sliced (edgeAttributes env e ctx p) :=
    Fails.bind (fails_expression env _ _ ctx) fun _ =>
      Fails.bind (fails_assignment env _ _ ctx) fun _ => Fails.ret _
  have written : ∀ src tgt ev attr, Throws Sliced (edge (stringOf ctx) src tgt ev attr) := by
    intro src tgt ev attr
    refine Throws.bind Throws.read fun st => ?_
    dsimp only
    split
    · exact Throws.bind (throws_write _) fun _ => Throws.bind (throws_write _) fun _ =>
        Throws.bind (Throws.update _) fun _ => throws_write _
    · exact throws_write _
  have finish : Throws Sliced (do
      let ev ← edgeEvent env e ctx p
      let src ← fromExcept (endName env e.src)
      let tgt ← fromExcept (endName env e.dst)
      assertTr (e.actname == "SKIP" || e.actname == "") "e.actname == \"SKIP\" || e.actname == \"\""
      let attr ← fromExcept (edgeAttributes env e ctx p)
      edge (stringOf ctx) src tgt ev attr : Tr Unit) :=
    Throws.bind label fun _ => Throws.bind (Throws.lift (named _)) fun _ =>
      Throws.bind (Throws.lift (named _)) fun _ => Throws.bind (throws_assert _ _) fun _ =>
        Throws.bind (Throws.lift attributes) fun _ => written _ _ _ _
  unfold sTranslateEdge
  split
  · exact Throws.bind (throws_write _) fun _ => finish
  · exact finish

theorem throws_edges (env : Env) (ctx : ContextPrefix) (p : Instance) :
    Throws Sliced (sTranslateEdges env ctx p) := by
  refine Throws.forM fun e => ?_
  generalize e.select = select
  induction select generalizing p with
  | nil => exact throws_edge env e ctx p
  | cons sel rest ih =>
      exact Throws.bind (Throws.lift (fails_enumeration env p sel)) fun _ =>
        throws_forRange sliced fun i => ih _

theorem throws_instance (env : Env) (ctx : ContextPrefix) (p : Instance) (m : Mapping) :
    Throws Sliced (sTranslateInstance env ctx p m) := by
  have finish : Throws Sliced (do
      writeLine (.process (stringOf ctx))
      translateDeclarations env (mergeMapping p m) ctx (mergeMapping p m).templ.toDeclarations
      sTranslateStates env ctx (mergeMapping p m)
      sTranslateEdges env ctx (mergeMapping p m)
      write .blank : Tr Unit) :=
    Throws.bind (throws_write _) fun _ => Throws.bind (throws_declarations env _ _ _) fun _ =>
      Throws.bind (throws_states env _ _) fun _ => Throws.bind (throws_edges env _ _) fun _ =>
        throws_write _
  refine Throws.bind (Throws.update _) fun _ => Throws.bind (throws_assert _ _) fun _ => ?_
  dsimp only
  split
  · exact Throws.bind (throws_write _) fun _ => finish
  · exact finish

theorem throws_processRec (env : Env) (p : Instance) (n : Nat) (ctx : ContextPrefix) (m : Mapping) :
    Throws Sliced (sTranslateProcessRec env p n ctx m) := by
  induction n generalizing ctx m with
  | zero => exact throws_instance env ctx p m
  | succ n ih =>
      exact Throws.bind (Throws.lift (sliced.orAssert (by decide) _)) fun _ =>
        Throws.bind (Throws.lift (fails_enumeration env p _)) fun _ =>
          throws_forRange sliced fun i => ih _ _

theorem throws_process (env : Env) (p : Instance) : Throws Sliced (sTranslateProcess env p) := by
  refine Throws.bind (throws_write _) fun _ => Throws.branch ?_ (throws_instance env _ p _)
  exact Throws.bind (throws_msg _ _ _) fun _ => throws_processRec env p _ _ _

theorem throws_displayTable (env : Env) : Throws Sliced (sDisplayTableOfEvents env) := by
  have entries : ∀ action table, Throws Sliced
      (List.forM table (sDisplayProcSet env action) : Tr Unit) := by
    intro action table
    refine Throws.forM fun entry => Throws.bind (throws_msg _ _ _) fun _ => ?_
    exact Throws.branch (throws_write _) (Throws.ret _)
  have listed : ∀ (set : EventSet), Throws Sliced (set.toList.forM fun e =>
      msg env.verboseLevel vlInfo [.text "\t", .text e, .text "\n"]) := fun set =>
    Throws.forM fun e => throws_msg _ _ _
  unfold sDisplayTableOfEvents
  split
  · refine Throws.bind Throws.read fun st => Throws.bind (throws_msg _ _ _) fun _ => ?_
    refine Throws.bind (entries _ _) fun _ => Throws.bind (entries _ _) fun _ =>
      Throws.bind (entries _ _) fun _ => ?_
    have broadcasts : Throws Sliced (do
        if !st.events.brodcasts.isEmpty then
          msg env.verboseLevel vlInfo [.text "broadcast events:\n"]
          st.events.brodcasts.toList.forM fun e =>
            msg env.verboseLevel vlInfo [.text "\t", .text e, .text "\n"] : Tr Unit) :=
      Throws.branch (Throws.bind (throws_msg _ _ _) fun _ => listed _) (Throws.ret _)
    dsimp only
    by_cases labels : (!st.events.labels.isEmpty) = true
    · rw [if_pos labels]
      exact Throws.bind (throws_msg _ _ _) fun _ => Throws.bind (listed _) fun _ => broadcasts
    · rw [if_neg labels]
      exact broadcasts
  · exact Throws.ret _

theorem throws_sync (sv : SyncMap) : Throws Sliced (sync sv) :=
  Throws.bind (throws_assert _ _) fun _ => throws_write _

theorem throws_blockedEvent (s p : String) (trevent : String → String) :
    Throws Sliced (sGenerateBlockedEvent s p trevent) := by
  refine Throws.bind Throws.read fun st => ?_
  dsimp only
  split
  · refine Throws.bind ?_ fun _ => Throws.bind (Throws.update _) fun _ => throws_sync _
    exact Throws.bind (throws_write _) fun _ => Throws.bind (throws_write _) fun _ =>
      Throws.bind (throws_write _) fun _ => throws_write _
  · exact throws_sync _

theorem throws_channelVectors : Throws Sliced sGenerateChannelVectors := by
  have binary : ∀ s receivers clear pe, Throws Sliced (sBinaryEmitter s receivers clear pe) := by
    intro s receivers clear pe
    have pairs : Throws Sliced (sPairEmitter s pe receivers) := by
      refine Throws.foldlM (fun norecv pr => ?_) true
      refine Throws.bind (Throws.branch (Throws.ret _) ?_) fun _ => Throws.ret _
      exact Throws.bind (throws_sync _) fun _ => Throws.ret _
    refine Throws.bind pairs fun norecv => Throws.branch ?_ (Throws.ret _)
    exact Throws.bind (throws_blockedEvent _ _ _) fun _ => Throws.ret _
  have broadcast : ∀ s receivers clear pe, Throws Sliced (sBroadcastEmitter s receivers clear pe) := by
    intro s receivers clear pe
    refine Throws.bind ?_ fun _ => Throws.ret _
    unfold sGenerateEmitBroadcast
    dsimp only
    split
    · exact Throws.bind (throws_sync _) fun _ => Throws.ret _
    · exact Throws.ret _
  refine Throws.bind Throws.read fun st => Throws.bind (Throws.forM fun kv => ?_) fun _ =>
    Throws.bind Throws.read fun st => Throws.forM fun kv => Throws.forM fun pr =>
      throws_blockedEvent _ _ _
  refine Throws.bind Throws.read fun st => ?_
  dsimp only
  split
  · exact Throws.branch (Throws.ret _) (Throws.forM fun pe => throws_blockedEvent _ _ _)
  · refine Throws.bind (throws_assert _ _) fun _ => ?_
    split
    · exact Throws.bind (Throws.foldlM (broadcast _ _) false) fun clear =>
        Throws.branch (Throws.update _) (Throws.ret _)
    · exact Throws.bind (Throws.foldlM (binary _ _) false) fun clear =>
        Throws.branch (Throws.update _) (Throws.ret _)

theorem throws_cspVectors : Throws Sliced sGenerateCspVectors := by
  refine Throws.bind Throws.read fun st => Throws.forM fun kv => ?_
  refine Throws.bind (Throws.foldlM (fun vect p => ?_) ∅) fun vect =>
    Throws.branch (throws_sync _) (Throws.ret _)
  unfold sStrongSyncStep
  split
  · exact Throws.bind (throws_blockedEvent _ _ _) fun _ => Throws.ret _
  · exact Throws.ret _

/-- Whatever stops a translation, it is not a `translation_exception`. -/
theorem throws_translateSystem (env : Env) (sysname : String) (tas : TimedAutomataSystem) :
    Throws Sliced (translateSystem env sysname tas) := by
  have sections : Throws Sliced (registerIoSections env tas.globals) := by
    refine Throws.branch (throws_write _) (Throws.bind Throws.read fun st => ?_)
    exact Throws.bind (Throws.lift (fails_ioSections env _ _)) fun _ => Throws.update _
  have processes : Throws Sliced (translateProcesses env sysname tas) :=
    Throws.bind (throws_write _) fun _ => Throws.bind (throws_declarations env _ _ _) fun _ =>
      Throws.bind sections fun _ => Throws.forM fun p => throws_process env p
  have vectors : Throws Sliced sGenerateSyncVectors :=
    Throws.bind (Throws.update _) fun _ => Throws.bind throws_channelVectors fun _ =>
      throws_cspVectors
  exact Throws.bind processes fun _ => Throws.bind (throws_displayTable env) fun _ => vectors

end Utot
