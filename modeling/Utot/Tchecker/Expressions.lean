import Utot.Library.Lexing
import Utot.Library.Precedence
import Utot.Uppaal.Arithmetic

/-!
# Expressions of the TChecker format

The trees an expression text is read as, with the usual precedences of C:
`&&`, equality, comparison, `+` and `-`, `*` and `/` and `%`, and the unary
operators, which bind tightest.  There is no token `--`.
-/

namespace Utot.Tchecker

open Utap Uppaal Library

/-! ## Trees and their values -/

inductive Tree where
  | number (n : Nat)
  | name (id : String)
  | elem (id : String) (index : Tree)
  | negate (x : Tree)
  | not (x : Tree)
  | and (l r : Tree)
  | binary (k : BinaryKind) (l r : Tree)
  | choose (c y n : Tree)
  deriving DecidableEq, Repr

/-- The values of variables of size 1 and of the cells of arrays. -/
structure Valuation (V : Type) where
  scalar : String → Option V
  cell : String → Int → Option V

/-- The value of a tree, if it is defined. -/
def Tree.value {V : Type} (A : Arithmetic V) (τ : Valuation V) : Tree → Option V
  | .number n => some (A.ofInt n)
  | .name id => τ.scalar id
  | .elem id i => ((i.value A τ).bind A.toInt).bind (τ.cell id)
  | .negate x => (x.value A τ).map A.negate
  | .not x => A.notOf (x.value A τ)
  | .and l r => A.andOf (l.value A τ) (r.value A τ)
  | .binary k l r => (l.value A τ).bind fun a => (r.value A τ).bind fun b => A.operate k a b
  | .choose c y n => A.chooseOf (c.value A τ) (y.value A τ) (n.value A τ)

/-! ## Lexemes -/

def isWordStart (c : Char) : Bool := c.isAlpha || c == '_'

def isWordChar (c : Char) : Bool := c.isAlphanum || c == '_'

/-- Names and numbers go on with letters, digits and `_`; five operators have two
characters. -/
def joinsLexeme (pending : List Char) (c : Char) : Bool :=
  if pending.all isWordChar then pending.isEmpty || isWordChar c
  else (pending == ['&'] && c == '&') || (['<', '>', '=', '!'].map ([·])).contains pending && c == '='

def lexer : Lexer Char where
  joins := joinsLexeme
  blank pending := pending.all (· == ' ')
  joins_nil _ := rfl
  blank_nil := rfl

/-- The words that are no names. -/
def keywords : List String := ["if", "then", "else"]

/-- The text is a name. -/
def IsName (s : String) : Prop :=
  (∃ c rest, s.toList = c :: rest ∧ isWordStart c = true) ∧ s.toList.all isWordChar = true ∧
    s ∉ keywords

/-! ## Grammar -/

/-- The roles of operators and brackets. -/
def symbolRole : List Char → Role Tree
  | ['('] => .lpar
  | [')'] => .rpar
  | ['['] => .lbra
  | [']'] => .rbra
  | ['!'] => .unary .not
  | ['&', '&'] => .binary 1 .and none
  | ['=', '='] => .binary 2 (.binary .eq) none
  | ['!', '='] => .binary 2 (.binary .neq) none
  | ['<'] => .binary 3 (.binary .lt) none
  | ['<', '='] => .binary 3 (.binary .le) none
  | ['>', '='] => .binary 3 (.binary .ge) none
  | ['>'] => .binary 3 (.binary .gt) none
  | ['+'] => .binary 4 (.binary .plus) none
  | ['-'] => .binary 4 (.binary .minus) (some .negate)
  | ['*'] => .binary 5 (.binary .mult) none
  | ['/'] => .binary 5 (.binary .div) none
  | ['%'] => .binary 5 (.binary .mod) none
  | _ => .other

/-- The roles of lexemes that start with a letter or `_`. -/
def wordRole (w : List Char) : Role Tree :=
  if w = "if".toList then .ifT
  else if w = "then".toList then .thenT
  else if w = "else".toList then .elseT
  else .atom (.name (String.ofList w)) (some (.elem (String.ofList w)))

def roleOf : List Char → Role Tree
  | [] => .other
  | c :: rest =>
      if (c :: rest).all Char.isDigit then .atom (.number (Nat.ofDigitChars 10 (c :: rest) 0)) none
      else if isWordStart c then wordRole (c :: rest)
      else symbolRole (c :: rest)

def grammar : ExprGrammar (List Char) Tree where
  role := roleOf
  top := 6
  positive := by decide
  choose := .choose

/-- The text is read as the tree. -/
def Reads (text : String) (tree : Tree) : Prop := Phrase grammar 0 (lexer.lex text.toList) tree

theorem Reads.unique {text : String} {tree tree' : Tree} (first : Reads text tree)
    (second : Reads text tree') : tree = tree' :=
  first.unambiguous second

end Utot.Tchecker
