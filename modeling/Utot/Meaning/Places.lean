import Utot.Meaning.Safety
import Utot.Names.Texts
import Utot.Translate.Expressions
import Utot.Uppaal.Declared

/-!
# Places

Which cell a reference denotes and what is printed for it.  The printer decides
at each subscript whether the array is one of TChecker or has been split, from
the type of what is subscripted and the initialiser of its root; here this is
compared with the declaration of the variable behind.
-/

namespace Utot

open Utap Uppaal Library

/-- A subscripted expression that the printer takes for an array that has been
split, provided a variable that is written there has been. -/
inductive SplitUse (env : Env) (p : Option Instance) : Expr → Prop where
  | declared {s : Symbol} {t : Ty} (unbound : mapped? p s = none) : SplitUse env p (.identifier s t)
  | parameter {s : Symbol} {t : Ty} {argument : Expr} (bound : mapped? p s = some argument)
      (other : looksOneDim t = false) : SplitUse env p (.identifier s t)
  | row {a i : Expr} {t : Ty} (other : looksOneDim t = false ∨
      ∃ root, a.getSymbol? = some root ∧ entriesEqual env (env.initialiser root) = false) :
      SplitUse env p (.binary .array a i t)

/-- The way to a cell of a variable that has been split; the indices are constant, and
rest on what Uppaal reads. -/
inductive SplitPath (env : Env) (p : Option Instance) : Expr → Symbol → List Int → Prop where
  | declared {s : Symbol} {t : Ty} (unbound : mapped? p s = none) (split : oneDim env s = false) :
      SplitPath env p (.identifier s t) s []
  | parameter {s c : Symbol} {t : Ty} {argument : Expr} {indices : List Int}
      (bound : mapped? p s = some argument) (later : SplitPath env p argument c indices) :
      SplitPath env p (.identifier s t) c indices
  | subscript {a i : Expr} {t : Ty} {c : Symbol} {indices : List Int} {index : Int}
      (array : SplitPath env p a c indices) (use : SplitUse env p a)
      (at' : YieldsExactly env p i index) : SplitPath env p (.binary .array a i t) c (indices ++ [index])

/-- The bounds of the outermost indices rest on what Uppaal reads. -/
def BoundsExact (env : Env) (p : Option Instance) (t : Ty) : Prop :=
  ∀ size lower upper, t.getArraySize? = some size → size.getRange? = some (lower, upper) →
    (∃ least, YieldsExactly env p lower least) ∧ ∃ greatest, YieldsExactly env p upper greatest

/-- A subscripted expression that is a whole array of TChecker. -/
inductive WholeUse (env : Env) (p : Option Instance) : Expr → Symbol → Prop where
  | declared {s : Symbol} {t : Ty} (unbound : mapped? p s = none) (line : oneDim env s = true)
      (exact : BoundsExact env p (env.getType s)) : WholeUse env p (.identifier s t) s
  | parameter {s c : Symbol} {t : Ty} {argument : Expr} (bound : mapped? p s = some argument)
      (behind : Denotes env p argument c []) (line : oneDim env c = true)
      (looks : looksOneDim t = true) (exact : BoundsExact env p (env.getType c)) :
      WholeUse env p (.identifier s t) c

section

variable {env : Env} {p : Option Instance} {scope : List Symbol} {e a : Expr} {c : Symbol}
  {indices : List Int} {depth : Nat} {ctx : ContextPrefix} {text : String}

/-! ## Shapes along the way -/

/-- What a reference denotes has the shape of the variable behind its indices. -/
theorem shape_of_denotes (checked : Checked env p scope e) (denotes : Denotes env p e c indices) :
    shape env p e.type = (shape env p (env.getType c)).drop indices.length := by
  induction denotes with
  | declared =>
      rw [checked.identifiers _ _ .self]
      rfl
  | parameter bound _ ih =>
      rw [← ih (checked.argument bound), ← (checked.parameters _ _ bound).2,
        ← checked.identifiers _ _ .self]
      rfl
  | @cell a i t c indices index _ _ ih =>
      obtain ⟨bounds, split⟩ : ∃ bounds, shape env p a.type = bounds :: shape env p t :=
        shape_getSub (checked.subscripts a i t .self)
      rw [ih checked.left] at split
      rw [List.length_append, List.length_singleton, ← List.drop_drop, split]
      rfl

theorem SplitPath.denotes (path : SplitPath env p e c indices) : Denotes env p e c indices := by
  induction path with
  | declared unbound => exact .declared unbound
  | parameter bound _ ih => exact .parameter bound ih
  | subscript _ _ at' ih => exact .cell ih (evaluates_of_yieldsExactly at')

theorem SplitPath.split (path : SplitPath env p e c indices) : oneDim env c = false := by
  induction path with
  | declared _ split => exact split
  | parameter _ _ ih => exact ih
  | subscript _ _ _ ih => exact ih

theorem WholeUse.denotes (whole : WholeUse env p a c) : Denotes env p a c [] := by
  cases whole with
  | declared unbound => exact .declared unbound
  | parameter bound behind => exact .parameter bound behind

theorem WholeUse.line (whole : WholeUse env p a c) : oneDim env c = true := by
  cases whole with
  | declared _ line => exact line
  | parameter _ _ line => exact line

theorem WholeUse.exact (whole : WholeUse env p a c) : BoundsExact env p (env.getType c) := by
  cases whole with
  | declared _ _ exact => exact exact
  | parameter _ _ _ _ exact => exact exact

/-- The bounds the evaluator computes are those of Uppaal. -/
theorem BoundsExact.range {t : Ty} {min max : Int} (exact : BoundsExact env p t)
    (bounds : indexBounds env p t = .ok (min, max)) :
    ∃ size, t.getArraySize? = some size ∧ IndexRange env p size (min, max) := by
  obtain ⟨size, sized, computed⟩ := Res.bind_eq_ok.mp bounds
  have sized := orAssert_eq_ok.mp sized
  obtain ⟨lower, upper, ranged, first, second, _⟩ := bounds_of_computeRangeBounds computed
  obtain ⟨⟨least, start⟩, greatest, stop⟩ := exact size lower upper sized ranged
  rw [start.eq_of_evalAux first, stop.eq_of_evalAux second]
  exact ⟨size, sized, lower, upper, ranged, evaluates_of_yieldsExactly start,
    evaluates_of_yieldsExactly stop⟩

/-! ## The decision at a subscript -/

/-- A split array is subscripted as one. -/
theorem SplitPath.use_eq (checked : Checked env p scope a) (path : SplitPath env p a c indices)
    (use : SplitUse env p a) {answer : Bool} {minsz maxsz : Int}
    (decided : isOneDimArrayVariable env p a = .ok (answer, minsz, maxsz)) : answer = false := by
  obtain ⟨_, _, same⟩ := isOneDimArrayVariable_eq_ok decided
  rw [same]
  cases use with
  | declared unbound =>
      cases path with
      | declared _ split =>
          rw [← split, oneDim, ← checked.identifiers _ _ .self]
          rfl
      | parameter bound =>
          rw [unbound] at bound
          cases bound
  | @parameter s t _ _ other =>
      rw [show (Expr.identifier s t).type = t from rfl, other, Bool.false_and]
  | @row a i t other =>
      rcases other with other | ⟨root, symbol, uneven⟩
      · rw [show (Expr.binary .array a i t).type = t from rfl, other, Bool.false_and]
      · rw [show Expr.getSymbol? (.binary .array _ _ _) = _ from symbol, Option.elim_some, uneven,
          Bool.and_false]

/-- A whole array of TChecker is subscripted as one, with its own bounds. -/
theorem WholeUse.use_eq (checked : Checked env p scope a) (whole : WholeUse env p a c)
    {answer : Bool} {minsz maxsz : Int}
    (decided : isOneDimArrayVariable env p a = .ok (answer, minsz, maxsz)) :
    answer = true ∧ indexBounds env p (env.getType c) = .ok (minsz, maxsz) := by
  obtain ⟨array, bounded, same⟩ := isOneDimArrayVariable_eq_ok decided
  constructor
  · rw [same]
    cases whole with
    | declared _ line =>
        rw [← line, oneDim, ← checked.identifiers _ _ .self]
        rfl
    | @parameter s c t argument bound _ _ looks _ =>
        rw [show Expr.type _ = t from rfl, looks, show Expr.getSymbol? (.identifier s t) = some s from rfl,
          Option.elim_some, Env.initialiser, (checked.parameters _ _ bound).1]
        rfl
  · have shapes := shape_of_denotes checked whole.denotes
    obtain ⟨rest, first⟩ : ∃ rest, shape env p _ = indexBounds env p _ :: rest :=
      shape_of_isArray array
    rw [first, List.length_nil, List.drop_zero] at shapes
    rw [← (isArray_of_shape shapes.symm).2, bounded]

/-! ## What is printed -/

/-- A declared variable, or a parameter that stands for one, is printed as its name. -/
theorem translateAux_whole (denotes : Denotes env p e c [])
    (printed : translateAux env depth p e ctx = .ok text) : text = symbolName env ctx c := by
  generalize none : ([] : List Int) = indices at denotes
  induction denotes generalizing depth text with
  | declared unbound =>
      cases depth with
      | zero => cases printed
      | succ depth =>
          simp only [translateAux, unbound] at printed
          cases printed
          rfl
  | parameter bound _ ih =>
      cases depth with
      | zero => cases printed
      | succ depth =>
          simp only [translateAux, bound] at printed
          exact ih printed none
  | cell => exact absurd none.symm (List.append_ne_nil_of_right_ne_nil _ (List.cons_ne_nil _ _))

/-- A cell of a split variable is printed as its name. -/
theorem SplitPath.printed_eq (checked : Checked env p scope e) (path : SplitPath env p e c indices)
    (printed : translateAux env depth p e ctx = .ok text) :
    text = cellName (symbolName env ctx c) indices.reverse := by
  induction path generalizing depth text with
  | declared unbound => exact translateAux_whole (.declared unbound) printed
  | parameter bound _ ih =>
      cases depth with
      | zero => cases printed
      | succ depth =>
          simp only [translateAux, bound] at printed
          exact ih (checked.argument bound) printed
  | subscript array use at' ih =>
      cases depth with
      | zero => cases printed
      | succ depth =>
          obtain ⟨⟨answer, minsz, maxsz⟩, decided, printed⟩ := Res.bind_eq_ok.mp printed
          have split := array.use_eq checked.left use decided
          subst split
          obtain ⟨index, evaluated, printed⟩ := Res.bind_eq_ok.mp printed
          split at printed
          · obtain ⟨front, front_eq, printed⟩ := Res.bind_eq_ok.mp printed
            cases printed
            rw [cellName_append, ih checked.left front_eq, at'.eq_of_evalAux evaluated]
          · cases printed

/-! ## What is denoted -/

variable {V : Type} {A : Arithmetic V} {g : State V → Option (List Int)} {c' : Symbol}

theorem place_whole (denotes : Denotes env p e c []) (means : Means A p e (.place c' g)) :
    c' = c ∧ g = fun _ => some [] := by
  generalize none : ([] : List Int) = indices at denotes
  induction denotes with
  | declared unbound =>
      obtain ⟨same, indices⟩ := place_declared unbound means
      exact ⟨same, by rw [indices]⟩
  | parameter bound _ ih => exact ih (place_parameter bound means).2 none
  | cell => exact absurd none.symm (List.append_ne_nil_of_right_ne_nil _ (List.cons_ne_nil _ _))

/-- Constant indices are the same in every state. -/
theorem place_of_denotes (checked : Checked env p scope e) (denotes : Denotes env p e c indices)
    (means : Means A p e (.place c' g)) :
    c' = c ∧ ∀ σ, GivesConstants A env p σ → g σ = some indices := by
  induction denotes generalizing g with
  | declared unbound =>
      obtain ⟨same, rfl⟩ := place_declared unbound means
      exact ⟨same, fun _ _ => rfl⟩
  | parameter bound _ ih => exact ih (checked.argument bound) (place_parameter bound means).2
  | cell _ at' ih =>
      cases means with
      | cell array index =>
          obtain ⟨same, constant⟩ := ih checked.left array
          refine ⟨same, fun σ given => ?_⟩
          rw [indexed, constant σ given, value_of_evaluates checked.right at' index given,
            Option.bind_some, Option.bind_some, A.toInt_ofInt, Option.map_some]

end

end Utot
