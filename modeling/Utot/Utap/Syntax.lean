import Mathlib.Data.String.Basic

/-!
# Expressions and types of the parser library

`expression_t` and `type_t` refer to each other: every expression node stores
the type the type checker gave it, and a range type stores its two bound
expressions.  A symbol is compared by address, so it is a number here; what the
address points to is kept in the symbol table of `Utot.Utap.System`.
-/

namespace Utot.Utap

/-- The identity of a `symbol_t`. -/
abbrev Symbol := Nat

/-- Kinds of `type_t` nodes without children. -/
inductive PrimKind where
  | unknown | voidType | clock | int | double | bool | scalar | location | branchpoint
  | channel | cost | invariant | invariantWr | guard | diff | constraint | formula | rate
  deriving DecidableEq, Repr

/-- Kinds of `type_t` nodes for which `isPrefix` answers true. -/
inductive PrefixKind where
  | constant | systemMeta | urgent | committed | broadcast | hybrid
  deriving DecidableEq, Repr

/-- `kind_t`, restricted to the kinds of types. -/
inductive Kind where
  | prim (kind : PrimKind)
  | pre (kind : PrefixKind)
  | ref | label | range | array | record
  deriving DecidableEq, Repr

/-- `synchronisation_t`. -/
inductive SyncKind where
  | que | bang | csp
  deriving DecidableEq, Repr

/-- Kinds of expressions with one operand. -/
inductive UnaryKind where
  | not | unaryMinus | postIncrement | preIncrement | postDecrement | preDecrement | dot | rate
  deriving DecidableEq, Repr

/-- Kinds of expressions with two operands. -/
inductive BinaryKind where
  | plus | minus | mult | div | mod
  | bitAnd | bitOr | bitXor | bitLshift | bitRshift
  | and | or | xor | lt | le | eq | neq | ge | gt | min | max
  | assign | assPlus | assMinus | assDiv | assMod | assMult
  | assAnd | assOr | assXor | assLshift | assRshift
  | comma | array | fraction
  deriving DecidableEq, Repr

/-- Kinds of expressions with a list of operands; `builtin` stands for the
quantifiers and the floating-point functions, which no translator names. -/
inductive NaryKind where
  | list | funcall | builtin (name : String)
  deriving DecidableEq, Repr

mutual

/-- `type_t`. -/
inductive Ty where
  | prim (kind : PrimKind)
  | pre (kind : PrefixKind) (type : Ty)
  | ref (type : Ty)
  | label (name : String) (type : Ty)
  | range (type : Ty) (lower upper : Expr)
  | array (sub size : Ty)
  | record (labels : List String) (fields : List Ty)

/-- `expression_t`.  The value of a constant of type `double` is the low word
of the union it shares with the floating-point number. -/
inductive Expr where
  | identifier (symbol : Symbol) (type : Ty)
  | constant (value : Int) (type : Ty)
  | unary (kind : UnaryKind) (sub : Expr) (type : Ty)
  | binary (kind : BinaryKind) (left right : Expr) (type : Ty)
  | inlineIf (cond yes no : Expr) (type : Ty)
  | nary (kind : NaryKind) (sub : List Expr) (type : Ty)
  | sync (kind : SyncKind) (channel : Expr)

end

instance : Inhabited Ty := ⟨.prim .unknown⟩
instance : Inhabited Expr := ⟨.constant 0 default⟩

namespace Ty

/-- `type_t::getKind`. -/
def kind : Ty → Kind
  | .prim k => .prim k
  | .pre k _ => .pre k
  | .ref _ => .ref
  | .label _ _ => .label
  | .range _ _ _ => .range
  | .array _ _ => .array
  | .record _ _ => .record

/-- `type_t::is`: the kind of the node or of what prefixes, labels, references
and ranges enclose. -/
def is : Ty → Kind → Bool
  | .prim p, k => k == .prim p
  | .pre p t, k => k == .pre p || t.is k
  | .ref t, k => k == .ref || t.is k
  | .label _ t, k => k == .label || t.is k
  | .range t _ _, k => k == .range || t.is k
  | .array _ _, k => k == .array
  | .record _ _, k => k == .record

def isArray (t : Ty) : Bool := t.is .array
def isRange (t : Ty) : Bool := t.is .range
def isInteger (t : Ty) : Bool := t.is (.prim .int)
def isBoolean (t : Ty) : Bool := t.is (.prim .bool)
def isScalar (t : Ty) : Bool := t.is (.prim .scalar)
def isClock (t : Ty) : Bool := t.is (.prim .clock)
def isIntegral (t : Ty) : Bool := t.isInteger || t.isBoolean

/-- `type_t::operator[] (0)`; there is no child below a primitive type. -/
def first? : Ty → Option Ty
  | .prim _ => none
  | .pre _ t => some t
  | .ref t => some t
  | .label _ t => some t
  | .range t _ _ => some t
  | .array t _ => some t
  | .record _ fields => fields.head?

/-- `type_t::getSub`: the type of the cells, under the prefixes of the array. -/
def getSub? : Ty → Option Ty
  | .prim _ => none
  | .pre k t => t.getSub?.map (.pre k)
  | .ref t => t.getSub?
  | .label _ t => t.getSub?
  | .range t _ _ => if t.isArray then some t else none
  | .array sub _ => some sub
  | .record _ _ => none

/-- `type_t::getArraySize`. -/
def getArraySize? : Ty → Option Ty
  | .prim _ => none
  | .pre _ t => t.getArraySize?
  | .ref t => t.getArraySize?
  | .label _ t => t.getArraySize?
  | .range _ _ _ => none
  | .array _ size => some size
  | .record _ _ => none

/-- `type_t::getRange`. -/
def getRange? : Ty → Option (Expr × Expr)
  | .prim _ => none
  | .pre _ t => t.getRange?
  | .ref t => t.getRange?
  | .label _ t => t.getRange?
  | .range _ lower upper => some (lower, upper)
  | .array _ _ => none
  | .record _ _ => none

/-- `type_t::strip`. -/
def strip : Ty → Ty
  | .pre _ t => t.strip
  | .ref t => t.strip
  | .label _ t => t.strip
  | .range t _ _ => t.strip
  | t => t

/-- `type_t::stripArray`. -/
def stripArray : Ty → Ty
  | .pre _ t => t.stripArray
  | .ref t => t.stripArray
  | .label _ t => t.stripArray
  | .range t _ _ => t.stripArray
  | .array sub _ => sub.stripArray
  | t => t

mutual

/-- `type_t::isConstant`. -/
def isConstant : Ty → Bool
  | .prim _ => false
  | .pre k t => k == .constant || t.isConstant
  | .ref t => t.isConstant
  | .label _ t => t.isConstant
  | .range t _ _ => t.isConstant
  | .array sub _ => sub.isConstant
  | .record _ fields => allConstant fields

def allConstant : List Ty → Bool
  | [] => true
  | t :: rest => t.isConstant && allConstant rest

end

end Ty

namespace Expr

/-- `expression_t::getType`; the builder gives a synchronisation no type. -/
def type : Expr → Ty
  | .identifier _ t => t
  | .constant _ t => t
  | .unary _ _ t => t
  | .binary _ _ _ t => t
  | .inlineIf _ _ _ t => t
  | .nary _ _ t => t
  | .sync _ _ => .prim .unknown

/-- The children `operator[]` reaches. -/
def subs : Expr → List Expr
  | .identifier _ _ => []
  | .constant _ _ => []
  | .unary _ e _ => [e]
  | .binary _ l r _ => [l, r]
  | .inlineIf c y n _ => [c, y, n]
  | .nary _ es _ => es
  | .sync _ e => [e]

/-- `expression_t::getSize`. -/
def getSize (e : Expr) : Nat := e.subs.length

/-- `expression_t::getSymbol`; `none` is the null symbol. -/
def getSymbol? : Expr → Option Symbol
  | .identifier s _ => some s
  | .constant _ _ => none
  | .unary .dot e _ => e.getSymbol?
  | .unary .preIncrement e _ => e.getSymbol?
  | .unary .preDecrement e _ => e.getSymbol?
  | .unary _ _ _ => none
  | .binary .array a _ _ => a.getSymbol?
  | .binary .comma _ r _ => r.getSymbol?
  | .binary .assign l _ _ => l.getSymbol?
  | .binary .assPlus l _ _ => l.getSymbol?
  | .binary .assMinus l _ _ => l.getSymbol?
  | .binary .assDiv l _ _ => l.getSymbol?
  | .binary .assMod l _ _ => l.getSymbol?
  | .binary .assMult l _ _ => l.getSymbol?
  | .binary .assAnd l _ _ => l.getSymbol?
  | .binary .assOr l _ _ => l.getSymbol?
  | .binary .assXor l _ _ => l.getSymbol?
  | .binary .assLshift l _ _ => l.getSymbol?
  | .binary .assRshift l _ _ => l.getSymbol?
  | .binary _ _ _ _ => none
  | .inlineIf _ y _ _ => y.getSymbol?
  | .nary .funcall (f :: _) _ => f.getSymbol?
  | .nary _ _ _ => none
  | .sync _ e => e.getSymbol?

/-- `expression_t::getValue`; it asserts a constant of integral type. -/
def getValue? : Expr → Option Int
  | .constant v t =>
      if t.isIntegral then some (if t.isInteger then v else if v = 0 then 0 else 1) else none
  | _ => none

mutual

/-- `expression_t::equal`: same kind, value and symbol at every node; the types
are not compared. -/
def equal : Expr → Expr → Bool
  | .identifier s _, .identifier s' _ => s == s'
  | .constant v _, .constant v' _ => v == v'
  | .unary k e _, .unary k' e' _ => k == k' && equal e e'
  | .binary k l r _, .binary k' l' r' _ => k == k' && equal l l' && equal r r'
  | .inlineIf c y n _, .inlineIf c' y' n' _ => equal c c' && equal y y' && equal n n'
  | .nary k es _, .nary k' es' _ => k == k' && equalAll es es'
  | .sync k e, .sync k' e' => k == k' && equal e e'
  | _, _ => false

def equalAll : List Expr → List Expr → Bool
  | [], [] => true
  | e :: es, e' :: es' => equal e e' && equalAll es es'
  | _, _ => false

end

/-- `expression_t::createConstant`. -/
def createConstant (value : Int) : Expr := .constant value (.prim .int)

end Expr

end Utot.Utap
