import Mathlib.Algebra.Group.Int.Defs
import Utot.Utap.System

/-!
# Values of constant expressions and channel cells in Uppaal

The meaning of an expression over constants, parameters and select variables in
an instance whose mapping gives the arguments, and the cell a channel expression
denotes.  Nothing here is taken from the translator.
-/

namespace Utot.Uppaal

open Utap

/-- The truth value of a comparison. -/
def truth (b : Bool) : Int := if b then 1 else 0

/-- The value of an `int` whose two's complement word is that of `n`. -/
def wordValue (n : Int) : Int := (BitVec.ofInt 32 n).toInt

/-- A bitwise operator on words. -/
def onWords (op : BitVec 32 → BitVec 32 → BitVec 32) (a b : Int) : Int :=
  (op (BitVec.ofInt 32 a) (BitVec.ofInt 32 b)).toInt

/-- Operators that evaluate both operands. -/
def operate : BinaryKind → Int → Int → Option Int
  | .plus, a, b => some (a + b)
  | .minus, a, b => some (a - b)
  | .mult, a, b => some (a * b)
  | .div, a, b => if b = 0 then none else some (a.tdiv b)
  | .mod, a, b => if b = 0 then none else some (a.tmod b)
  | .bitAnd, a, b => some (onWords (· &&& ·) a b)
  | .bitOr, a, b => some (onWords (· ||| ·) a b)
  | .bitXor, a, b => some (onWords (· ^^^ ·) a b)
  | .bitLshift, a, b => some (wordValue (a * 2 ^ b.toNat))
  | .bitRshift, a, b => some (a / 2 ^ b.toNat)
  | .lt, a, b => some (truth (a < b))
  | .le, a, b => some (truth (a ≤ b))
  | .eq, a, b => some (truth (a = b))
  | .neq, a, b => some (truth (a ≠ b))
  | .ge, a, b => some (truth (a ≥ b))
  | .gt, a, b => some (truth (a > b))
  | .min, a, b => some (min a b)
  | .max, a, b => some (max a b)
  | _, _, _ => none

/-- An integer that stands where a Boolean is expected is its truth value; for arrays
the types of the cells decide. -/
def converts (target source : Ty) : Bool :=
  target.stripArray.isBoolean && !source.stripArray.isBoolean

/-- The value a symbol or an entry of the one type gets from an expression of the other. -/
def converted (target source : Ty) (v : Int) : Int :=
  if converts target source then truth (v ≠ 0) else v

/-- The value of a constant expression in an instance, or of a cell of a constant
array: a single value has no indices.  Only the entries of a list are cells; a name,
a parameter, a choice and a row stand for the array behind them. -/
inductive Contains (env : Env) (p : Option Instance) : Expr → List Int → Int → Prop where
  | integer {v : Int} {t : Ty} (isInt : t.isInteger = true) : Contains env p (.constant v t) [] v
  | boolean {v : Int} {t : Ty} (isBool : t.isBoolean = true) (notInt : t.isInteger = false) :
      Contains env p (.constant v t) [] (truth (v ≠ 0))
  | initialised {s : Symbol} {t : Ty} {init : Expr} {indices : List Int} {v : Int}
      (constant : (env.getType s).isConstant = true) (given : env.initialiser s = some init)
      (value : Contains env p init indices v) :
      Contains env p (.identifier s t) indices (converted (env.getType s) init.type v)
  | bound {s : Symbol} {t : Ty} {argument : Expr} {indices : List Int} {v : Int}
      (constant : (env.getType s).isConstant = true) (plain : env.initialiser s = none)
      (given : mapped? p s = some argument) (value : Contains env p argument indices v) :
      Contains env p (.identifier s t) indices (converted (env.getType s) argument.type v)
  | not {e : Expr} {t : Ty} {v : Int} (operand : Contains env p e [] v) :
      Contains env p (.unary .not e t) [] (truth (v = 0))
  | unaryMinus {e : Expr} {t : Ty} {v : Int} (operand : Contains env p e [] v) :
      Contains env p (.unary .unaryMinus e t) [] (-v)
  | binary {k : BinaryKind} {l r : Expr} {t : Ty} {a b v : Int} (left : Contains env p l [] a)
      (right : Contains env p r [] b) (result : operate k a b = some v) :
      Contains env p (.binary k l r t) [] v
  | andFalse {l r : Expr} {t : Ty} (left : Contains env p l [] 0) :
      Contains env p (.binary .and l r t) [] 0
  | andTrue {l r : Expr} {t : Ty} {a b : Int} (left : Contains env p l [] a) (holds : a ≠ 0)
      (right : Contains env p r [] b) : Contains env p (.binary .and l r t) [] (truth (b ≠ 0))
  | orTrue {l r : Expr} {t : Ty} {a : Int} (left : Contains env p l [] a) (holds : a ≠ 0) :
      Contains env p (.binary .or l r t) [] 1
  | orFalse {l r : Expr} {t : Ty} {b : Int} (left : Contains env p l [] 0)
      (right : Contains env p r [] b) : Contains env p (.binary .or l r t) [] (truth (b ≠ 0))
  | chooseYes {c y n : Expr} {t : Ty} {a : Int} {indices : List Int} {v : Int}
      (cond : Contains env p c [] a) (holds : a ≠ 0) (value : Contains env p y indices v) :
      Contains env p (.inlineIf c y n t) indices v
  | chooseNo {c y n : Expr} {t : Ty} {indices : List Int} {v : Int} (cond : Contains env p c [] 0)
      (value : Contains env p n indices v) : Contains env p (.inlineIf c y n t) indices v
  | cell {a i : Expr} {t : Ty} {index : Int} {indices : List Int} {v : Int}
      (at' : Contains env p i [] index) (value : Contains env p a (index :: indices) v) :
      Contains env p (.binary .array a i t) indices v
  | entry {es : List Expr} {t size : Ty} {lower upper x : Expr} {index least greatest : Int}
      {indices : List Int} {v : Int} (sized : t.getArraySize? = some size)
      (ranged : size.getRange? = some (lower, upper)) (start : Contains env p lower [] least)
      (stop : Contains env p upper [] greatest) (inside : least ≤ index ∧ index ≤ greatest)
      (found : es[(index - least).toNat]? = some x) (value : Contains env p x indices v) :
      Contains env p (.nary .list es t) (index :: indices) (converted t x.type v)

/-- The value of a constant expression in an instance. -/
abbrev Evaluates (env : Env) (p : Option Instance) (e : Expr) (v : Int) : Prop :=
  Contains env p e [] v

/-- The cell a channel expression denotes: the declared channel, after the
arguments of parameters have been followed, and the indices of its cell. -/
inductive Denotes (env : Env) (p : Option Instance) : Expr → Symbol → List Int → Prop where
  | declared {s : Symbol} {t : Ty} (unbound : mapped? p s = none) :
      Denotes env p (.identifier s t) s []
  | parameter {s c : Symbol} {t : Ty} {argument : Expr} {indices : List Int}
      (bound : mapped? p s = some argument) (later : Denotes env p argument c indices) :
      Denotes env p (.identifier s t) c indices
  | cell {a i : Expr} {t : Ty} {c : Symbol} {indices : List Int} {index : Int}
      (array : Denotes env p a c indices) (at' : Evaluates env p i index) :
      Denotes env p (.binary .array a i t) c (indices ++ [index])

section

variable {env : Env} {p : Option Instance} {e : Expr} {indices : List Int} {v w : Int}

/-- A cell has one value. -/
theorem Contains.unique (first : Contains env p e indices v) (second : Contains env p e indices w) :
    v = w := by
  induction first generalizing w with
  | integer isInt =>
      cases second with
      | integer => rfl
      | boolean _ notInt =>
          rw [isInt] at notInt
          cases notInt
  | boolean _ notInt =>
      cases second with
      | integer isInt =>
          rw [isInt] at notInt
          cases notInt
      | boolean => rfl
  | initialised _ given _ ih =>
      cases second with
      | initialised _ given' value =>
          rw [given] at given'
          cases given'
          rw [ih value]
      | bound _ plain =>
          rw [given] at plain
          cases plain
  | bound _ plain given _ ih =>
      cases second with
      | initialised _ given' =>
          rw [plain] at given'
          cases given'
      | bound _ _ given' value =>
          rw [given] at given'
          cases given'
          rw [ih value]
  | not _ ih =>
      cases second with
      | not operand => rw [ih operand]
  | unaryMinus _ ih =>
      cases second with
      | unaryMinus operand => rw [ih operand]
  | binary _ _ result ihl ihr =>
      cases second with
      | binary left right result' =>
          rw [ihl left, ihr right, result'] at result
          exact (Option.some.inj result).symm
      | andFalse => cases result
      | andTrue => cases result
      | orTrue => cases result
      | orFalse => cases result
      | cell => cases result
  | andFalse _ ih =>
      cases second with
      | binary _ _ result => cases result
      | andFalse => rfl
      | andTrue left holds => exact absurd (ih left).symm holds
  | andTrue _ holds _ ihl ihr =>
      cases second with
      | binary _ _ result => cases result
      | andFalse left => exact absurd (ihl left) holds
      | andTrue _ _ right => rw [ihr right]
  | orTrue _ holds ih =>
      cases second with
      | binary _ _ result => cases result
      | orTrue => rfl
      | orFalse left => exact absurd (ih left) holds
  | orFalse _ _ ihl ihr =>
      cases second with
      | binary _ _ result => cases result
      | orTrue left holds => exact absurd (ihl left).symm holds
      | orFalse _ right => rw [ihr right]
  | chooseYes _ holds _ ihc ihv =>
      cases second with
      | chooseYes _ _ value => exact ihv value
      | chooseNo cond => exact absurd (ihc cond) holds
  | chooseNo _ _ ihc ihv =>
      cases second with
      | chooseYes cond holds => exact absurd (ihc cond).symm holds
      | chooseNo _ value => exact ihv value
  | cell _ _ ihi ihv =>
      cases second with
      | binary _ _ result => cases result
      | cell at' value =>
          rw [← ihi at'] at value
          exact ihv value
  | entry sized ranged _ _ _ found _ ihl _ ihv =>
      cases second with
      | entry sized' ranged' start _ _ found' value =>
          rw [sized] at sized'
          cases sized'
          rw [ranged] at ranged'
          cases ranged'
          rw [← ihl start, found] at found'
          cases found'
          rw [ihv value]

theorem converted_eq {target source : Ty} (same : converts target source = false) :
    converted target source v = v :=
  if_neg (by rw [same]; exact Bool.false_ne_true)

end

end Utot.Uppaal
