import Utot.Labels.Uses
import Utot.Names.Instances
import Utot.Run.Declarations
import Utot.Tchecker.Reading

/-!
# Names that are printed

Which symbols of a model a translation prints on a line, with which indices and
parameter values behind them; and what a model has to be like for all of these
names to be identifiers of TChecker.
-/

namespace Utot

open Utap Library Tchecker

/-! ## Identifiers of the parser -/

/-- What an identifier of the lexer goes on with. -/
def isIdentifierChar (c : Char) : Bool := c.isAlphanum || c == '_' || c == '$' || c == '#'

/-- `alpha` and then `idchr`s. -/
def isIdentifier : List Char → Bool
  | [] => false
  | c :: rest => (c.isAlpha || c == '_') && (c :: rest).all isIdentifierChar

/-- The name of a symbol comes from the lexer. -/
def Lexed (env : Env) (s : Symbol) : Prop := isIdentifier (env.getName s).toList = true

/-- The characters of the lexer that TChecker does not have in identifiers. -/
def foreignChars : List Char := ['$', '#']

/-! ## References -/

/-- `r` is printed where `e` is: below operators, for parameters, and in indices
that are not folded. -/
inductive PrintedIn (env : Env) (p : Option Instance) (r : Expr) : Expr → Prop where
  | self : PrintedIn env p r r
  | unary {k : UnaryKind} {x : Expr} {t : Ty} (inside : PrintedIn env p r x) :
      PrintedIn env p r (.unary k x t)
  | left {k : BinaryKind} {x y : Expr} {t : Ty} (inside : PrintedIn env p r x) :
      PrintedIn env p r (.binary k x y t)
  | right {k : BinaryKind} {x y : Expr} {t : Ty} (other : k ≠ .array) (inside : PrintedIn env p r y) :
      PrintedIn env p r (.binary k x y t)
  | index {x y : Expr} {t : Ty} {min max : Int}
      (whole : isOneDimArrayVariable env p x = .ok (true, min, max)) (inside : PrintedIn env p r y) :
      PrintedIn env p r (.binary .array x y t)
  | cond {c y n : Expr} {t : Ty} (inside : PrintedIn env p r c) :
      PrintedIn env p r (.inlineIf c y n t)
  | yes {c y n : Expr} {t : Ty} (inside : PrintedIn env p r y) : PrintedIn env p r (.inlineIf c y n t)
  | no {c y n : Expr} {t : Ty} (inside : PrintedIn env p r n) : PrintedIn env p r (.inlineIf c y n t)
  | argument {s : Symbol} {t : Ty} {argument : Expr} (bound : mapped? p s = some argument)
      (inside : PrintedIn env p r argument) : PrintedIn env p r (.identifier s t)
  | channel {kind : SyncKind} {x : Expr} (inside : PrintedIn env p r x) :
      PrintedIn env p r (.sync kind x)

/-- The symbol behind a reference and the indices that are printed behind its
name, where `split` says which arrays are split into cells. -/
inductive NameOf (env : Env) (p : Option Instance) (split : Expr → Prop) :
    Expr → Symbol → List Int → Prop where
  | declared {s : Symbol} {t : Ty} (unbound : mapped? p s = none) :
      NameOf env p split (.identifier s t) s []
  | parameter {s c : Symbol} {t : Ty} {argument : Expr} {indices : List Int}
      (bound : mapped? p s = some argument) (later : NameOf env p split argument c indices) :
      NameOf env p split (.identifier s t) c indices
  | cell {a i : Expr} {t : Ty} {c : Symbol} {indices : List Int} {index : Int} (isSplit : split a)
      (array : NameOf env p split a c indices) (at' : evalIntegerConstant env p i = .ok index) :
      NameOf env p split (.binary .array a i t) c (indices ++ [index])
  | sync {kind : SyncKind} {e : Expr} {c : Symbol} {indices : List Int} (all : ∀ a, split a)
      (channel : NameOf env p split e c indices) : NameOf env p split (.sync kind e) c indices

/-- `translate_expression` takes the subscripted expression for an array that is split. -/
def SplitAt (env : Env) (p : Option Instance) (a : Expr) : Prop :=
  ∃ min max, isOneDimArrayVariable env p a = .ok (false, min, max)

/-- The name of a variable, clock or cell in an expression. -/
abbrev VariableName (env : Env) (p : Option Instance) : Expr → Symbol → List Int → Prop :=
  NameOf env p (SplitAt env p)

/-- The name of a channel or of a cell of channels; all their arrays are split. -/
abbrev ChannelName (env : Env) (p : Option Instance) : Expr → Symbol → List Int → Prop :=
  NameOf env p fun _ => True

/-! ## What a translation prints -/

/-- The expressions of attributes, with the instance and the prefix they are
translated with. -/
inductive Translated (env : Env) (tas : TimedAutomataSystem) :
    ContextPrefix → Instance → Expr → Prop where
  | invariant {p q : Instance} {ctx : ContextPrefix} {st : State} {e : Expr}
      (listed : p ∈ tas.processes) (inst : InstanceOf env p ctx q) (member : st ∈ q.templ.states)
      (given : st.invariant = some e) : Translated env tas ctx q e
  | guard {q : Instance} {ctx : ContextPrefix} {edge : Edge}
      (visit : Visit env tas.processes ctx q edge) : Translated env tas ctx q edge.guard
  | update {q : Instance} {ctx : ContextPrefix} {edge : Edge}
      (visit : Visit env tas.processes ctx q edge) : Translated env tas ctx q edge.assign

/-- The declarations of a system, with the instance they are translated with. -/
inductive DeclaredBy (env : Env) (tas : TimedAutomataSystem) : Option Instance → Symbol → Prop where
  | inGlobals {s : Symbol} (listed : s ∈ tas.globals.vars.tail) : DeclaredBy env tas none s
  | inTemplate {p q : Instance} {ctx : ContextPrefix} {s : Symbol} (listed : p ∈ tas.processes)
      (inst : InstanceOf env p ctx q) (declared : s ∈ q.templ.vars) : DeclaredBy env tas (some q) s

/-- The type of the innermost cells of an array. -/
def innermost : Ty → Ty
  | .array sub _ => innermost sub
  | t => t

/-- A declaration of the type writes lines: it is none of channels. -/
def writesLines (t : Ty) : Bool := !isEventKind (innermost (stripLabels t)).kind

/-- The symbols whose names are printed on lines. -/
inductive Shown (env : Env) (tas : TimedAutomataSystem) : Symbol → Prop where
  | process {p : Instance} (listed : p ∈ tas.processes) : Shown env tas p.uid
  | parameter {p : Instance} {s : Symbol} (listed : p ∈ tas.processes) (isOpen : s ∈ openParameters p) :
      Shown env tas s
  | location {p : Instance} {st : State} (listed : p ∈ tas.processes) (member : st ∈ p.templ.states) :
      Shown env tas st.uid
  | ending {p : Instance} {e : Edge} {s : Symbol} (listed : p ∈ tas.processes)
      (member : e ∈ p.templ.edges) (ends : e.src = some s ∨ e.dst = some s) : Shown env tas s
  | declared {p : Option Instance} {s : Symbol} (declaration : DeclaredBy env tas p s)
      (lines : writesLines (env.getType s) = true) : Shown env tas s
  | reference {ctx : ContextPrefix} {q : Instance} {e : Expr} {s : Symbol} {t : Ty}
      (translated : Translated env tas ctx q e) (inside : PrintedIn env (some q) (.identifier s t) e)
      (unbound : mapped? (some q) s = none) : Shown env tas s
  | channel {ctx : ContextPrefix} {q : Instance} {e : Edge} {kind : SyncKind} {channel : Expr}
      {c : Symbol} (visit : Visit env tas.processes ctx q e) (sync : e.sync = some (.sync kind channel))
      (resolves : Resolves env q channel c) : Shown env tas c

/-- The symbols whose names are printed at all: some only in comments. -/
inductive Mentioned (env : Env) (tas : TimedAutomataSystem) : Symbol → Prop where
  | shown {s : Symbol} (shown : Shown env tas s) : Mentioned env tas s
  | declared {p : Option Instance} {s : Symbol} (declaration : DeclaredBy env tas p s) :
      Mentioned env tas s
  | select {p : Instance} {e : Edge} {s : Symbol} (listed : p ∈ tas.processes)
      (member : e ∈ p.templ.edges) (selected : s ∈ e.select) : Mentioned env tas s

/-- Every name a translation prints on a line is spelt with letters, digits and
`_`: the names of the model have none of the other characters of the lexer, and
the numbers behind names are not negative. -/
structure PlainNames (env : Env) (tas : TimedAutomataSystem) : Prop where
  symbols : ∀ s, Shown env tas s → ∀ c ∈ foreignChars, c ∉ (env.getName s).toList
  /-- The values of parameters in the names of processes. -/
  values : ∀ p ∈ tas.processes, ∀ values : List Int, values.length = (openParameters p).length →
    InstanceOf env p (prefixOf env p values) (instanceWith p values) → ∀ i ∈ values, 0 ≤ i
  /-- The indices of the cells of variables and clocks that are split. -/
  cells : ∀ p s, DeclaredBy env tas p s →
    oneDimDeclaration env p (stripLabels (env.getType s)) (env.initialiser s) = .ok none →
    ∀ S type, CellIndices env p (stripLabels (env.getType s)) [] S type →
      isEventKind type.kind = false → ∀ i ∈ S, 0 ≤ i
  /-- The indices of references to such cells. -/
  references : ∀ ctx q e r c indices, Translated env tas ctx q e → PrintedIn env (some q) r e →
    VariableName env (some q) r c indices → ∀ i ∈ indices, 0 ≤ i
  /-- The indices of channels that edges synchronise on. -/
  channels : ∀ ctx q e kind channel c indices, Visit env tas.processes ctx q e →
    e.sync = some (.sync kind channel) → ChannelName env (some q) channel c indices →
    ∀ i ∈ indices, 0 ≤ i

end Utot
