import Std.Data.TreeMap
import Utot.Utap.Syntax

/-!
# The system the type checker hands over

What the translator reads of `TimedAutomataSystem`.  The data of symbols is kept
in one table; a variable is named by its symbol, whose user data is the
`variable_t`, so that the list of variables and the user data cannot disagree.
-/

namespace Utot.Utap

/-- What a `variable_t` holds besides its symbol: the initialiser, if any. -/
structure Variable where
  expr : Option Expr

/-- `symbol_data`.  A null `data` is what parameters and select variables have. -/
structure SymbolData where
  name : String
  type : Ty
  /-- `getFrame ().hasParent ()`: the symbol was declared in a template, or by a select. -/
  hasParent : Bool
  data : Option Variable

/-- The bindings of an `instance_t`. -/
abbrev Mapping := Std.TreeMap Symbol Expr

/-- `state_t`. -/
structure State where
  uid : Symbol
  invariant : Option Expr

/-- `edge_t`.  An end that is a branchpoint is a null pointer, here `none`. -/
structure Edge where
  actname : String
  src : Option Symbol
  dst : Option Symbol
  select : List Symbol
  guard : Expr
  sync : Option Expr
  assign : Expr

/-- `iodecl_t`; the parameters and the lists of inputs and outputs are not translated. -/
structure IoDecl where
  instanceName : String
  csp : List Expr

/-- What the destructor of a `function_t` looks at: whether its raw pointer `body` is set. -/
structure Function where
  hasBody : Bool

/-- `declarations_t`; `vars` is its list of variables. -/
structure Declarations where
  vars : List Symbol
  iodecl : List IoDecl
  functions : List Function

/-- Some function has a body: two copies of the declarations share it. -/
def Declarations.sharesBodies (decls : Declarations) : Bool := decls.functions.any Function.hasBody

/-- `template_t`. -/
structure Template extends Declarations where
  init : Symbol
  states : List State
  edges : List Edge

/-- `instance_t`: the unbound parameters come first in `parameters`. -/
structure Instance where
  uid : Symbol
  parameters : List Symbol
  mapping : Mapping
  unbound : Nat
  templ : Template

/-- `TimedAutomataSystem`. -/
structure TimedAutomataSystem where
  globals : Declarations
  processes : List Instance

/-- What every function of the translator can see: the data behind the symbols,
the level of verbosity, and how deep the native stack is. -/
structure Env where
  symbols : Symbol → SymbolData
  verboseLevel : Nat
  stack : Nat

namespace Env

/-- `symbol_t::getName`. -/
def getName (env : Env) (s : Symbol) : String := (env.symbols s).name

/-- `symbol_t::getType`. -/
def getType (env : Env) (s : Symbol) : Ty := (env.symbols s).type

/-- `symbol_t::getFrame ().hasParent ()`. -/
def hasParent (env : Env) (s : Symbol) : Bool := (env.symbols s).hasParent

/-- `symbol_t::getData`. -/
def getData (env : Env) (s : Symbol) : Option Variable := (env.symbols s).data

/-- The initialiser of a variable of a list of declarations. -/
def initialiser (env : Env) (s : Symbol) : Option Expr := (env.getData s).bind Variable.expr

end Env

/-- An environment whose symbols are numbered by a list. -/
def envOfSymbols (symbols : List SymbolData) : Env :=
  ⟨fun s => symbols.getD s ⟨"", .prim .unknown, false, none⟩, 0, 20⟩

/-- Look a symbol up in the mapping of an instance, when there is an instance. -/
def mapped? (p : Option Instance) (s : Symbol) : Option Expr :=
  p.bind fun q => q.mapping[s]?

end Utot.Utap
