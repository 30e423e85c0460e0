import Utot.Layout.Types
import Utot.Library.Lifts

/-!
# More stack, more bindings, other names

What the evaluator and the printer return does not change when the native stack
is deeper; what the evaluator returns does not change when more symbols are
bound, so that a bound evaluated for a declaration is the same at a use.  Names
are of account only for symbols that are not bound.
-/

namespace Utot

open Utap Library

/-- What is bound in the first instance is bound to the same in the second. -/
def Extends (p q : Option Instance) : Prop :=
  ∀ s argument, mapped? p s = some argument → mapped? q s = some argument

theorem Extends.refl (p : Option Instance) : Extends p p := fun _ _ bound => bound

/-- Without an instance nothing is bound. -/
theorem extends_none (q : Option Instance) : Extends none q := by
  intro s argument bound
  cases bound

/-- The same symbols under other names. -/
def Utap.Env.renamed (env : Env) (names : Symbol → String) : Env where
  symbols s := { env.symbols s with name := names s }
  verboseLevel := env.verboseLevel
  stack := env.stack

section

variable {env : Env} {p q : Option Instance} (more : Extends p q)

include more

theorem lifts_evalAux_renamed (names : Symbol → String) {depth depth' : Nat} (deeper : depth ≤ depth')
    (e : Expr) : Lifts (evalAux env depth p e) (evalAux (env.renamed names) depth' q e) := by
  induction depth generalizing depth' e with
  | zero => exact Lifts.error _ _
  | succ depth ih =>
      obtain ⟨depth', rfl⟩ : ∃ d, depth' = d + 1 := ⟨depth' - 1, by omega⟩
      have operand (x : Expr) : Lifts (evalAux env depth p x) (evalAux (env.renamed names) depth' q x) :=
        ih (by omega) x
      have operator (op : Int → Int → Res Int) (l r : Expr) :
          Lifts (evalAux env depth p l >>= fun a => evalAux env depth p r >>= fun b => op a b)
            (evalAux (env.renamed names) depth' q l >>= fun a =>
              evalAux (env.renamed names) depth' q r >>= fun b => op a b) :=
        Lifts.bind (operand l) fun _ _ => Lifts.bind (operand r) fun _ _ => Lifts.refl _
      have bounds (size : Ty) : Lifts (computeRangeBoundsWith (evalAux env depth p) size)
          (computeRangeBoundsWith (evalAux (env.renamed names) depth' q) size) :=
        Lifts.after fun _ _ => Lifts.after fun _ _ => Lifts.after fun _ _ =>
          Lifts.after fun _ _ => Lifts.bind (operand _) fun _ _ =>
            Lifts.bind (operand _) fun _ _ => Lifts.refl _
      unfold evalAux
      refine Lifts.branch (fun _ => Lifts.refl _) fun _ => ?_
      cases e with
      | binary k l r t =>
          cases k with
          | and =>
              exact Lifts.bind (operand l) fun _ _ => Lifts.branch (fun _ => Lifts.refl _)
                fun _ => Lifts.bind (operand r) fun _ _ => Lifts.refl _
          | or =>
              exact Lifts.bind (operand l) fun _ _ => Lifts.branch (fun _ => Lifts.refl _)
                fun _ => Lifts.bind (operand r) fun _ _ => Lifts.refl _
          | array =>
              refine Lifts.bind (operand r) fun _ _ => Lifts.after fun _ _ =>
                Lifts.after fun _ _ => Lifts.bind (bounds _) fun _ _ => ?_
              refine Lifts.branch (fun _ => Lifts.refl _) fun _ => ?_
              cases l with
              | identifier s t =>
                  dsimp only
                  rw [show (env.renamed names).getData s = env.getData s from rfl]
                  cases env.getData s with
                  | none => exact Lifts.refl _
                  | some var =>
                      dsimp only
                      cases var.expr with
                      | none => exact Lifts.refl _
                      | some init => exact Lifts.after fun cell _ => operand cell
              | _ => exact Lifts.refl _
          | _ => first | exact operator _ l r | exact Lifts.refl _
      | unary k x t =>
          cases k with
          | not => exact Lifts.bind (operand x) fun _ _ => Lifts.refl _
          | unaryMinus => exact Lifts.bind (operand x) fun _ _ => Lifts.refl _
          | _ => exact Lifts.refl _
      | inlineIf c y n t =>
          exact Lifts.bind (operand c) fun _ _ =>
            Lifts.branch (fun _ => operand y) fun _ => operand n
      | identifier s t =>
          refine Lifts.branch (fun _ => Lifts.error _ _) fun _ => ?_
          rw [show (env.renamed names).initialiser s = env.initialiser s from rfl]
          cases env.initialiser s with
          | some init => exact operand init
          | none =>
              dsimp only
              cases bound : mapped? p s with
              | none => exact Lifts.error _ _
              | some argument =>
                  rw [more s argument bound]
                  exact operand argument
      | nary k es t =>
          cases k with
          | list =>
              refine Lifts.after fun _ _ => Lifts.after fun _ _ => Lifts.bind (operand _) fun _ _ => ?_
              exact Lifts.branch (fun _ => Lifts.refl _) fun _ => Lifts.after fun cell _ => operand cell
          | _ => exact Lifts.refl _
      | _ => exact Lifts.refl _

theorem lifts_evalAux {depth depth' : Nat} (deeper : depth ≤ depth') (e : Expr) :
    Lifts (evalAux env depth p e) (evalAux env depth' q e) :=
  lifts_evalAux_renamed more env.getName deeper e

theorem lifts_evalIntegerConstant (e : Expr) :
    Lifts (evalIntegerConstant env p e) (evalIntegerConstant env q e) :=
  lifts_evalAux more (Nat.le_refl _) e

theorem lifts_computeRangeBounds (size : Ty) :
    Lifts (computeRangeBounds env p size) (computeRangeBounds env q size) :=
  Lifts.after fun _ _ => Lifts.after fun _ _ => Lifts.after fun _ _ => Lifts.after fun _ _ =>
    Lifts.bind (lifts_evalIntegerConstant more _) fun _ _ =>
      Lifts.bind (lifts_evalIntegerConstant more _) fun _ _ => Lifts.refl _

theorem lifts_indexBounds (t : Ty) : Lifts (indexBounds env p t) (indexBounds env q t) :=
  Lifts.after fun size _ => lifts_computeRangeBounds more size

end

/-! ## Depth of the stack -/

section

variable {env : Env} {p : Option Instance} (names : Symbol → String)

theorem lifts_constant_renamed (e : Expr) :
    Lifts (evalIntegerConstant env p e) (evalIntegerConstant (env.renamed names) p e) :=
  lifts_evalAux_renamed (Extends.refl p) names (Nat.le_refl _) e

theorem lifts_bounds_renamed (size : Ty) :
    Lifts (computeRangeBounds env p size) (computeRangeBounds (env.renamed names) p size) :=
  Lifts.after fun _ _ => Lifts.after fun _ _ => Lifts.after fun _ _ => Lifts.after fun _ _ =>
    Lifts.bind (lifts_constant_renamed names _) fun _ _ =>
      Lifts.bind (lifts_constant_renamed names _) fun _ _ => Lifts.refl _

theorem lifts_decision_renamed (a : Expr) :
    Lifts (isOneDimArrayVariable env p a) (isOneDimArrayVariable (env.renamed names) p a) := by
  have type : Lifts (isOneDimArrayType env p a.type) (isOneDimArrayType (env.renamed names) p a.type) :=
    Lifts.after fun _ _ => Lifts.after fun _ _ => Lifts.bind (lifts_bounds_renamed names _) fun _ _ =>
      Lifts.refl _
  have equals (init : Option Expr) :
      Lifts (areAllEqualsInList env p init) (areAllEqualsInList (env.renamed names) p init) := by
    cases init with
    | none => exact Lifts.refl _
    | some init =>
        exact Lifts.after fun _ _ => Lifts.after fun _ _ => Lifts.after fun _ _ =>
          Lifts.bind (lifts_bounds_renamed names _) fun _ _ => Lifts.refl _
  refine Lifts.bind type fun decided _ => ?_
  obtain ⟨minsz, maxsz, basetype⟩ := decided
  cases basetype with
  | none => exact Lifts.refl _
  | some basetype =>
      dsimp only
      cases a.getSymbol? with
      | none => exact Lifts.refl _
      | some s =>
          dsimp only
          rw [show (env.renamed names).getData s = env.getData s from rfl]
          cases env.getData s with
          | none => exact Lifts.refl _
          | some var => exact Lifts.bind (equals _) fun _ _ => Lifts.refl _

variable {names} (agree : ∀ s, mapped? p s = none → names s = env.getName s)

include agree

theorem symbolName_renamed (ctx : ContextPrefix) {s : Symbol} (free : mapped? p s = none) :
    symbolName (env.renamed names) ctx s = symbolName env ctx s := by
  change (if env.hasParent s then addPrefix ctx (names s) else names s) = _
  rw [agree s free]
  rfl

theorem lifts_translateEventAux_renamed {depth depth' : Nat} (deeper : depth ≤ depth') (e : Expr)
    (ctx : ContextPrefix) : Lifts (translateEventAux env depth p e ctx)
      (translateEventAux (env.renamed names) depth' p e ctx) := by
  induction depth generalizing depth' e with
  | zero => exact Lifts.error _ _
  | succ depth ih =>
      obtain ⟨depth', rfl⟩ : ∃ d, depth' = d + 1 := ⟨depth' - 1, by omega⟩
      unfold translateEventAux
      cases e with
      | identifier s t =>
          dsimp only
          cases bound : mapped? p s with
          | none =>
              dsimp only
              rw [symbolName_renamed agree ctx bound]
              exact Lifts.refl _
          | some argument => exact ih (by omega) argument
      | binary k a i t =>
          cases k with
          | array =>
              refine Lifts.bind (lifts_constant_renamed names i) fun _ _ => Lifts.after fun _ _ =>
                Lifts.bind (lifts_bounds_renamed names _) fun _ _ => ?_
              refine Lifts.branch (fun _ => ?_) fun _ => Lifts.refl _
              exact Lifts.bind (ih (by omega) a) fun _ _ =>
                Lifts.bind (lifts_constant_renamed names i) fun _ _ => Lifts.refl _
          | _ => exact Lifts.refl _
      | sync k channel => exact ih (by omega) channel
      | _ => exact Lifts.refl _

theorem lifts_translateAux_renamed {depth depth' : Nat} (deeper : depth ≤ depth') (e : Expr)
    (ctx : ContextPrefix) :
    Lifts (translateAux env depth p e ctx) (translateAux (env.renamed names) depth' p e ctx) := by
  induction depth generalizing depth' e with
  | zero => exact Lifts.error _ _
  | succ depth ih =>
      obtain ⟨depth', rfl⟩ : ∃ d, depth' = d + 1 := ⟨depth' - 1, by omega⟩
      have operand (x : Expr) :
          Lifts (translateAux env depth p x ctx) (translateAux (env.renamed names) depth' p x ctx) :=
        ih (by omega) x
      have operands {l r : Expr} {f : String → String → Res String} :
          Lifts (translateAux env depth p l ctx >>= fun a => translateAux env depth p r ctx >>= f a)
            (translateAux (env.renamed names) depth' p l ctx >>= fun a =>
              translateAux (env.renamed names) depth' p r ctx >>= f a) :=
        Lifts.bind (operand l) fun _ _ => Lifts.bind (operand r) fun _ _ => Lifts.refl _
      unfold translateAux
      cases e with
      | identifier s t =>
          dsimp only
          cases bound : mapped? p s with
          | none =>
              dsimp only
              rw [symbolName_renamed agree ctx bound]
              exact Lifts.refl _
          | some argument => exact operand argument
      | unary k x t =>
          cases k with
          | not => exact Lifts.bind (operand x) fun _ _ => Lifts.refl _
          | unaryMinus => exact Lifts.bind (operand x) fun _ _ => Lifts.refl _
          | _ => exact Lifts.refl _
      | binary k l r t =>
          cases k with
          | array =>
              refine Lifts.bind (lifts_decision_renamed names l) fun decided _ =>
                Lifts.branch (fun _ => operands) fun _ => ?_
              refine Lifts.bind (lifts_constant_renamed names r) fun _ _ =>
                Lifts.branch (fun _ => ?_) fun _ => Lifts.refl _
              exact Lifts.bind (operand l) fun _ _ => Lifts.refl _
          | _ => first | exact operands | exact Lifts.refl _
      | inlineIf c y n t =>
          exact Lifts.bind (operand c) fun _ _ => operands
      | sync k channel => exact lifts_translateEventAux_renamed agree (by omega) _ ctx
      | _ => exact Lifts.refl _

end

section

variable {env : Env} {p : Option Instance}

theorem lifts_translateEventAux {depth depth' : Nat} (deeper : depth ≤ depth') (e : Expr)
    (ctx : ContextPrefix) :
    Lifts (translateEventAux env depth p e ctx) (translateEventAux env depth' p e ctx) :=
  lifts_translateEventAux_renamed (fun _ _ => rfl) deeper e ctx

theorem lifts_translateAux {depth depth' : Nat} (deeper : depth ≤ depth') (e : Expr)
    (ctx : ContextPrefix) :
    Lifts (translateAux env depth p e ctx) (translateAux env depth' p e ctx) :=
  lifts_translateAux_renamed (fun _ _ => rfl) deeper e ctx

end

end Utot
