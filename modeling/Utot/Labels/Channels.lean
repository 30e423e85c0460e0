import Utot.Format.Texts
import Utot.Meaning.Safety
import Utot.Names.Cells
import Utot.Translate.Model

/-!
# Base labels are names of channel cells

The base label of a synchronisation is the name of a cell of the channel behind
it, whatever parameters and subscripts it is reached through, and so is the
label of an event in an IO section.  The indices in the name are found by taking
the operands of initialisers for cells; where they rest on what Uppaal reads, the
cell is the one the synchronisation denotes.
-/

namespace Utot

open Utap Uppaal Library

/-! ## The label of a channel cell -/

section

variable {env : Env} {p : Option Instance} {e : Expr} {c c' : Symbol} {indices indices' : List Int}
  {depth : Nat} {ctx : ContextPrefix} {text : String}

/-- The cell a channel expression has when the operands of an initialiser are taken for
the cells of its array. -/
inductive Finds (env : Env) (p : Option Instance) : Expr → Symbol → List Int → Prop where
  | declared {s : Symbol} {t : Ty} (unbound : mapped? p s = none) : Finds env p (.identifier s t) s []
  | parameter {s c : Symbol} {t : Ty} {argument : Expr} {indices : List Int}
      (bound : mapped? p s = some argument) (later : Finds env p argument c indices) :
      Finds env p (.identifier s t) c indices
  | cell {a i : Expr} {t : Ty} {c : Symbol} {indices : List Int} {index : Int}
      (array : Finds env p a c indices) (at' : YieldsInitially env p i index) :
      Finds env p (.binary .array a i t) c (indices ++ [index])

theorem Finds.unique (first : Finds env p e c indices) (second : Finds env p e c' indices') :
    c' = c ∧ indices' = indices := by
  induction first generalizing c' indices' with
  | declared unbound =>
      cases second with
      | declared => exact ⟨rfl, rfl⟩
      | parameter bound =>
          rw [unbound] at bound
          cases bound
  | parameter bound _ ih =>
      cases second with
      | declared unbound =>
          rw [bound] at unbound
          cases unbound
      | parameter bound' later =>
          rw [bound] at bound'
          cases bound'
          exact ih later
  | cell _ value ih =>
      cases second with
      | cell array value' =>
          obtain ⟨symbols, same⟩ := ih array
          exact ⟨symbols, by rw [same, value.unique value']⟩

/-- The name of a channel expression is that of this cell. -/
theorem Finds.name_eq (finds : Finds env p e c indices) (name : ChannelName env p e c' indices') :
    c' = c ∧ indices' = indices := by
  induction finds generalizing c' indices' with
  | declared unbound =>
      cases name with
      | declared => exact ⟨rfl, rfl⟩
      | parameter bound =>
          rw [unbound] at bound
          cases bound
  | parameter bound _ ih =>
      cases name with
      | declared unbound =>
          rw [bound] at unbound
          cases unbound
      | parameter bound' later =>
          rw [bound] at bound'
          cases bound'
          exact ih later
  | cell _ value ih =>
      cases name with
      | cell _ array evaluated =>
          obtain ⟨symbols, same⟩ := ih array
          exact ⟨symbols, by rw [same, value.eq_of_evalAux evaluated]⟩

/-- `translate_event_expression` prints the name. -/
theorem translateEventAux_name (finds : Finds env p e c indices)
    (printed : translateEventAux env depth p e ctx = .ok text) :
    text = cellName (symbolName env ctx c) indices.reverse := by
  obtain ⟨c', indices', name, same⟩ := translateEventAux_channelName printed
  obtain ⟨rfl, rfl⟩ := finds.name_eq name
  exact same

/-- The type checker accepts the indices of a channel expression, and of the arguments
behind its parameters. -/
inductive CheckedIndices (env : Env) (p : Option Instance) : Expr → Prop where
  | declared {s : Symbol} {t : Ty} (unbound : mapped? p s = none) : CheckedIndices env p (.identifier s t)
  | parameter {s : Symbol} {t : Ty} {argument : Expr} (bound : mapped? p s = some argument)
      (later : CheckedIndices env p argument) : CheckedIndices env p (.identifier s t)
  | cell {a i : Expr} {t : Ty} (array : CheckedIndices env p a) (checked : TypeChecked env p i) :
      CheckedIndices env p (.binary .array a i t)

/-- A channel expression with a name has such a cell. -/
theorem CheckedIndices.finds (checked : CheckedIndices env p e) (name : ChannelName env p e c indices) :
    Finds env p e c indices := by
  induction checked generalizing c indices with
  | declared unbound =>
      cases name with
      | declared => exact .declared unbound
      | parameter bound =>
          rw [unbound] at bound
          cases bound
  | parameter bound _ ih =>
      cases name with
      | declared unbound =>
          rw [bound] at unbound
          cases unbound
      | parameter bound' later =>
          rw [bound] at bound'
          cases bound'
          exact .parameter bound (ih later)
  | cell _ checked ih =>
      cases name with
      | cell _ array evaluated => exact .cell (ih array) (yields_of_evalAux checked evaluated)

/-- The indices of a channel expression, and of the arguments behind its parameters,
rest on what Uppaal reads. -/
inductive ExactIndices (env : Env) (p : Option Instance) : Expr → Prop where
  | declared {s : Symbol} {t : Ty} (unbound : mapped? p s = none) : ExactIndices env p (.identifier s t)
  | parameter {s : Symbol} {t : Ty} {argument : Expr} (bound : mapped? p s = some argument)
      (later : ExactIndices env p argument) : ExactIndices env p (.identifier s t)
  | cell {a i : Expr} {t : Ty} {index : Int} (array : ExactIndices env p a)
      (at' : YieldsExactly env p i index) : ExactIndices env p (.binary .array a i t)

/-- The cell is then the one the expression denotes. -/
theorem ExactIndices.finds (exact : ExactIndices env p e) (denotes : Denotes env p e c indices) :
    Finds env p e c indices := by
  induction exact generalizing c indices with
  | declared unbound =>
      cases denotes with
      | declared => exact .declared unbound
      | parameter bound =>
          rw [unbound] at bound
          cases bound
  | parameter bound _ ih =>
      cases denotes with
      | declared unbound =>
          rw [bound] at unbound
          cases unbound
      | parameter bound' denotes =>
          rw [bound] at bound'
          cases bound'
          exact .parameter bound (ih denotes)
  | cell _ value ih =>
      cases denotes with
      | cell denotes at' =>
          obtain rfl := (evaluates_of_yieldsExactly value).unique at'
          exact .cell (ih denotes) value.initially

end

/-- The type of a channel, or of an array of channels of any dimension. -/
def ofChannels : Ty → Bool
  | .prim k => k == .channel
  | .pre _ t => ofChannels t
  | .ref t => ofChannels t
  | .label _ t => ofChannels t
  | .array sub _ => ofChannels sub
  | .range _ _ _ => false
  | .record _ _ => false

theorem ofChannels_stripRefsAndLabels (t : Ty) :
    ofChannels (stripRefsAndLabels t) = ofChannels t := by
  fun_induction stripRefsAndLabels t with
  | case1 t ih => exact ih
  | case2 _ t ih => exact ih
  | case3 t => rfl

theorem ofChannels_first {t elem : Ty} (channels : ofChannels t = true) (first : t.first? = some elem) :
    ofChannels elem = true := by
  cases t with
  | prim => cases first
  | record => cases channels
  | _ =>
      cases first
      first | exact channels | cases channels

/-- No array of channels is one-dimensional for TChecker. -/
theorem isOneDimArrayType_channels {env : Env} {p : Option Instance} {t : Ty}
    {answer : Int × Int × Option Ty} (channels : ofChannels t = true)
    (decided : isOneDimArrayType env p t = .ok answer) : answer.2.2 = none := by
  obtain ⟨_, _, decided⟩ := Res.bind_eq_ok.mp decided
  obtain ⟨_, _, decided⟩ := Res.bind_eq_ok.mp decided
  obtain ⟨bounds, _, decided⟩ := Res.bind_eq_ok.mp decided
  obtain ⟨elem, first, decided⟩ := Res.bind_eq_ok.mp decided
  dsimp only at decided
  split at decided
  · cases decided
    rfl
  · cases decided
    have inside := ofChannels_first (by rwa [ofChannels_stripRefsAndLabels])
      (orAssert_eq_ok.mp first)
    rw [← ofChannels_stripRefsAndLabels] at inside
    cases base : stripRefsAndLabels elem with
    | prim k =>
        rw [base] at inside
        cases k <;> first | rfl | cases inside
    | range => rw [base] at inside; cases inside
    | _ => rfl

theorem isOneDimArrayVariable_channels {env : Env} {p : Option Instance} {e : Expr}
    {answer : Bool × Int × Int} (channels : ofChannels e.type = true)
    (decided : isOneDimArrayVariable env p e = .ok answer) : answer.1 = false := by
  obtain ⟨⟨minsz, maxsz, basetype⟩, type, decided⟩ := Res.bind_eq_ok.mp decided
  have flattened := isOneDimArrayType_channels channels type
  dsimp only at flattened
  subst flattened
  cases decided
  rfl

/-- A channel expression: every array on the way to its root holds channels. -/
def isChannelExpr : Expr → Bool
  | .identifier _ t => ofChannels t
  | .binary .array a _ t => isChannelExpr a && ofChannels t
  | _ => false

theorem ofChannels_type {e : Expr} (channel : isChannelExpr e = true) : ofChannels e.type = true := by
  unfold isChannelExpr at channel
  split at channel
  · exact channel
  · rw [Bool.and_eq_true] at channel
    exact channel.2
  · cases channel

/-- `translate_expression` prints the name, too. -/
theorem translateAux_name {env : Env} {depth : Nat} {e : Expr} {ctx : ContextPrefix} {c : Symbol}
    {indices : List Int} {text : String} (channel : isChannelExpr e = true)
    (finds : Finds env none e c indices) (printed : translateAux env depth none e ctx = .ok text) :
    text = cellName (symbolName env ctx c) indices.reverse := by
  induction finds generalizing depth text with
  | declared unbound =>
      cases depth with
      | zero => cases printed
      | succ depth =>
          cases printed
          rfl
  | parameter bound => cases bound
  | cell _ at' ih =>
      cases depth with
      | zero => cases printed
      | succ depth =>
          obtain ⟨array, _⟩ := (Bool.and_eq_true _ _).mp channel
          obtain ⟨⟨oneDim, minsz, maxsz⟩, decided, printed⟩ := Res.bind_eq_ok.mp printed
          have flattened := isOneDimArrayVariable_channels (ofChannels_type array) decided
          dsimp only at flattened
          subst flattened
          obtain ⟨index, evaluated, printed⟩ := Res.bind_eq_ok.mp printed
          obtain rfl := at'.eq_of_evalAux evaluated
          split at printed
          · obtain ⟨front, front_eq, printed⟩ := Res.bind_eq_ok.mp printed
            cases printed
            rw [cellName_append, ih array front_eq]
          · cases printed

end Utot
