import Utot.Utap.Syntax

/-!
# How a translation stops

`tr_err` builds a `translation_exception` and hands it to `err_ex` by reference
to the base class.  The throw expression there copies the object at the static
type of that reference, so the class of what is thrown is read off the
reference and not off the object.
-/

namespace Utot

open Utap

/-- The arguments of `print`, `tr_err`, `msg` and `comment`. -/
inductive Arg where
  | text (text : String)
  | int (value : Int)
  | expr (expr : Expr)
  | type (type : Ty)
  | symbol (symbol : Symbol)

/-- The two exception classes of the program. -/
inductive ExceptionClass where
  | exception | translationException
  deriving DecidableEq, Repr

/-- Why a computation does not return. -/
inductive Fault where
  /-- A C++ exception of the given class was thrown. -/
  | thrown (cls : ExceptionClass) (message : List Arg)
  /-- An `assert` failed. -/
  | assertion (what : String)
  /-- The behaviour is undefined: null dereference, overflow, division by zero, double delete. -/
  | undefined (what : String)
  /-- The native stack is exhausted. -/
  | stackOverflow

/-- Only an exception runs the destructors of the blocks it leaves. -/
def Fault.unwinds : Fault → Bool
  | .thrown _ _ => true
  | _ => false

/-- The result of a function that may throw. -/
abbrev Res := Except Fault

/-- A reference to an exception: the type it was declared with and the class of
the object behind it. -/
structure ExceptionRef where
  staticType : ExceptionClass
  object : ExceptionClass

/-- `err_ex`: `throw e` throws a copy of static type. -/
def errEx {α : Type} (e : ExceptionRef) (args : List Arg) : Res α :=
  .error (.thrown e.staticType args)

/-- `tr_err`: the parameter of `err_ex` is declared `const exception &`. -/
def trErr {α : Type} (args : List Arg) : Res α :=
  errEx ⟨.exception, .translationException⟩ args

/-- `assert`. -/
def assertThat (condition : Bool) (what : String) : Res Unit :=
  if condition then .ok () else .error (.assertion what)

/-- The result of a partial accessor guarded by an assertion. -/
def orAssert {α : Type} (what : String) : Option α → Res α
  | none => .error (.assertion what)
  | some a => .ok a

@[simp] theorem trErr_eq {α : Type} (args : List Arg) :
    (trErr args : Res α) = .error (.thrown .exception args) := rfl

@[simp] theorem orAssert_none {α : Type} (what : String) :
    orAssert what (none : Option α) = .error (.assertion what) := rfl

@[simp] theorem orAssert_some {α : Type} (what : String) (a : α) :
    orAssert what (some a) = .ok a := rfl

theorem orAssert_eq_ok {α : Type} {what : String} {o : Option α} {a : α} :
    orAssert what o = .ok a ↔ o = some a := by
  cases o <;> simp

/-- A bind that returns had both of its parts return. -/
theorem Res.bind_eq_ok {α β : Type} {x : Res α} {f : α → Res β} {b : β} :
    (x >>= f) = .ok b ↔ ∃ a, x = .ok a ∧ f a = .ok b := by
  cases x with
  | error e => constructor <;> rintro ⟨⟩; cases ‹_ ∧ _›.1
  | ok a =>
      constructor
      · intro returned
        exact ⟨a, rfl, returned⟩
      · rintro ⟨a', same, returned⟩
        cases same
        exact returned

end Utot
