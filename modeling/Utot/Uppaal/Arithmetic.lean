import Utot.Uppaal.Values

/-!
# Values of variables and clocks

Clocks have values that are no integers, so expressions are evaluated over any
type of values in which the integers are embedded.  The operators mean the same
to Uppaal and to TChecker; a result that is not defined is `none`.
-/

namespace Utot.Uppaal

open Utap

/-- Values and the operators on them; on integers they are those of `operate`. -/
structure Arithmetic (V : Type) where
  ofInt : Int → V
  toInt : V → Option Int
  isTrue : V → Bool
  negate : V → V
  operate : BinaryKind → V → V → Option V
  toInt_ofInt : ∀ n, toInt (ofInt n) = some n
  ofInt_toInt : ∀ v n, toInt v = some n → v = ofInt n
  isTrue_ofInt : ∀ n, isTrue (ofInt n) = decide (n ≠ 0)
  negate_ofInt : ∀ n, negate (ofInt n) = ofInt (-n)
  operate_ofInt : ∀ k a b n, Uppaal.operate k a b = some n →
    operate k (ofInt a) (ofInt b) = some (ofInt n)
  minus_ofInt : ∀ v m w n, operate .minus v (ofInt m) = some w → toInt w = some n →
    v = ofInt (n + m)

/-- The values of a model without clocks. -/
def integers : Arithmetic Int where
  ofInt n := n
  toInt n := some n
  isTrue n := decide (n ≠ 0)
  negate n := -n
  operate := Uppaal.operate
  toInt_ofInt _ := rfl
  ofInt_toInt _ _ same := Option.some.inj same
  isTrue_ofInt _ := rfl
  negate_ofInt _ := rfl
  operate_ofInt _ _ _ _ value := value
  minus_ofInt v m w n difference same := by
    cases difference
    cases same
    omega

namespace Arithmetic

variable {V : Type} (A : Arithmetic V)

/-- The value of a truth value. -/
def ofBool (b : Bool) : V := A.ofInt (truth b)

@[simp] theorem isTrue_ofBool (b : Bool) : A.isTrue (A.ofBool b) = b := by
  rw [ofBool, A.isTrue_ofInt]
  cases b <;> decide

/-! ## Operators that look at the truth of their operands -/

/-- The truth value an integer is converted to. -/
def truthOf (x : Option V) : Option V := x.map fun a => A.ofBool (A.isTrue a)

/-- The value a variable of the one type gets from an expression of the other. -/
def convertOf (target source : Ty) (x : Option V) : Option V :=
  if converts target source then A.truthOf x else x

def notOf (x : Option V) : Option V := x.map fun a => A.ofBool (!A.isTrue a)

/-- `&&` evaluates its second operand only if the first one holds. -/
def andOf (x y : Option V) : Option V :=
  x.bind fun a => if A.isTrue a then y.map fun b => A.ofBool (A.isTrue b) else some (A.ofBool false)

/-- `||` evaluates its second operand only if the first one does not hold. -/
def orOf (x y : Option V) : Option V :=
  x.bind fun a => if A.isTrue a then some (A.ofBool true) else y.map fun b => A.ofBool (A.isTrue b)

def chooseOf (c x y : Option V) : Option V := c.bind fun a => if A.isTrue a then x else y

/-- De Morgan's law holds for values and for what is defined. -/
theorem orOf_eq (x y : Option V) : A.orOf x y = A.notOf (A.andOf (A.notOf x) (A.notOf y)) := by
  cases x with
  | none => rfl
  | some a =>
      unfold orOf notOf andOf
      by_cases first : A.isTrue a = true
      · simp [first]
      · cases y with
        | none => simp [first]
        | some b => simp [first]

theorem andOf_ofInt (a : Int) (y : Option V) (zero : a = 0) :
    A.andOf (some (A.ofInt a)) y = some (A.ofInt 0) := by
  subst zero
  unfold andOf
  rw [Option.bind_some, A.isTrue_ofInt]
  rfl

end Arithmetic

end Utot.Uppaal
