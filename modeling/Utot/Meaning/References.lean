import Utot.Meaning.Operands
import Utot.Meaning.Storage

/-!
# References and the declarations they match

The text printed for a variable, a clock or a cell names a line of the output
whose size fits, provided every array is treated at the use the way it has been
declared.
-/

namespace Utot

open Utap Uppaal Library Tchecker

/-! ## What is printed with an expression -/

section

variable {env : Env} {p : Option Instance} {r e : Expr} {depth : Nat} {ctx : ContextPrefix} {text : String}

/-- No synchronisation is printed with the expression. -/
def NoSync (env : Env) (p : Option Instance) (e : Expr) : Prop :=
  ∀ kind channel, ¬ PrintedIn env p (.sync kind channel) e

theorem noSync_constant (v : Int) (t : Ty) : NoSync env p (.constant v t) := by
  intro kind channel inside
  cases inside

theorem noSync_declared {s : Symbol} (t : Ty) (unbound : mapped? p s = none) :
    NoSync env p (.identifier s t) := by
  intro kind channel inside
  cases inside with
  | argument bound =>
      rw [unbound] at bound
      cases bound

theorem noSync_binary {k : BinaryKind} {x y : Expr} (t : Ty) (left : NoSync env p x)
    (right : NoSync env p y) : NoSync env p (.binary k x y t) := by
  intro kind channel inside
  cases inside with
  | left inside => exact left kind channel inside
  | right _ inside => exact right kind channel inside
  | index _ inside => exact right kind channel inside

theorem written_of_printedIn (inside : PrintedIn env p r e) (noSync : NoSync env p e) : Written p r e := by
  induction inside with
  | self => exact .self
  | unary _ ih => exact .unary (ih fun kind channel sync => noSync kind channel (.unary sync))
  | left _ ih => exact .left (ih fun kind channel sync => noSync kind channel (.left sync))
  | right other _ ih => exact .right (ih fun kind channel sync => noSync kind channel (.right other sync))
  | index whole _ ih => exact .right (ih fun kind channel sync => noSync kind channel (.index whole sync))
  | cond _ ih => exact .cond (ih fun kind channel sync => noSync kind channel (.cond sync))
  | yes _ ih => exact .yes (ih fun kind channel sync => noSync kind channel (.yes sync))
  | no _ ih => exact .no (ih fun kind channel sync => noSync kind channel (.no sync))
  | argument bound _ ih =>
      exact .argument bound (ih fun kind channel sync => noSync kind channel (.argument bound sync))
  | channel => exact absurd .self (noSync _ _)

theorem translated_array {a i : Expr} {t : Ty}
    (printed : translateAux env (depth + 1) p (.binary .array a i t) ctx = .ok text) :
    ∃ front, translateAux env depth p a ctx = .ok front := by
  obtain ⟨⟨answer, minsz, maxsz⟩, _, printed⟩ := Res.bind_eq_ok.mp printed
  cases answer with
  | true =>
      obtain ⟨front, first, _⟩ := Res.bind_eq_ok.mp printed
      exact ⟨front, first⟩
  | false =>
      obtain ⟨index, _, printed⟩ := Res.bind_eq_ok.mp printed
      split at printed
      · obtain ⟨front, first, _⟩ := Res.bind_eq_ok.mp printed
        exact ⟨front, first⟩
      · cases printed

theorem translated_index {a i : Expr} {t : Ty} {min max : Int}
    (whole : isOneDimArrayVariable env p a = .ok (true, min, max))
    (printed : translateAux env (depth + 1) p (.binary .array a i t) ctx = .ok text) :
    ∃ front inner, translateAux env depth p a ctx = .ok front ∧
      translateAux env depth p i ctx = .ok inner ∧
        text = front ++ "[" ++ inner ++ offsetText min ++ "]" := by
  obtain ⟨_, decided, printed⟩ := Res.bind_eq_ok.mp printed
  rw [whole] at decided
  cases decided
  obtain ⟨front, first, printed⟩ := Res.bind_eq_ok.mp printed
  obtain ⟨inner, second, printed⟩ := Res.bind_eq_ok.mp printed
  cases printed
  exact ⟨front, inner, first, second, rfl⟩

/-- What is printed with an expression has been translated on its own. -/
theorem translated_of_printedIn (inside : PrintedIn env p r e) (noSync : NoSync env p e)
    (printed : translateAux env depth p e ctx = .ok text) :
    ∃ inner, translateAux env depth p r ctx = .ok inner := by
  have deeper {depth : Nat} (shallow : ∃ inner, translateAux env depth p r ctx = .ok inner) :
      ∃ inner, translateAux env (depth + 1) p r ctx = .ok inner := by
    obtain ⟨inner, returned⟩ := shallow
    exact ⟨inner, lifts_translateAux (Nat.le_succ _) r ctx inner returned⟩
  induction inside generalizing depth text with
  | self => exact ⟨text, printed⟩
  | channel => exact absurd .self (noSync _ _)
  | unary _ ih =>
      cases depth with
      | zero => cases printed
      | succ depth =>
          obtain ⟨_, inner, _, first, _⟩ := translateAux_unary_eq_ok printed
          exact deeper (ih (fun kind channel sync => noSync kind channel (.unary sync)) first)
  | @left k x y t _ ih =>
      cases depth with
      | zero => cases printed
      | succ depth =>
          have below : NoSync env p x := fun kind channel sync => noSync kind channel (.left sync)
          by_cases array : k = .array
          · subst array
            obtain ⟨front, first⟩ := translated_array printed
            exact deeper (ih below first)
          · obtain ⟨_, _, _, left, _, _, first, _⟩ := translateAux_operands_eq_ok array printed
            exact deeper (ih below first)
  | right other _ ih =>
      cases depth with
      | zero => cases printed
      | succ depth =>
          obtain ⟨_, _, _, _, right, _, _, second, _⟩ := translateAux_operands_eq_ok other printed
          exact deeper (ih (fun kind channel sync => noSync kind channel (.right other sync)) second)
  | index whole _ ih =>
      cases depth with
      | zero => cases printed
      | succ depth =>
          obtain ⟨_, inner, _, second, _⟩ := translated_index whole printed
          exact deeper (ih (fun kind channel sync => noSync kind channel (.index whole sync)) second)
  | cond _ ih =>
      cases depth with
      | zero => cases printed
      | succ depth =>
          obtain ⟨inner, first, _⟩ := Res.bind_eq_ok.mp printed
          exact deeper (ih (fun kind channel sync => noSync kind channel (.cond sync)) first)
  | yes _ ih =>
      cases depth with
      | zero => cases printed
      | succ depth =>
          obtain ⟨_, _, printed⟩ := Res.bind_eq_ok.mp printed
          obtain ⟨inner, second, _⟩ := Res.bind_eq_ok.mp printed
          exact deeper (ih (fun kind channel sync => noSync kind channel (.yes sync)) second)
  | no _ ih =>
      cases depth with
      | zero => cases printed
      | succ depth =>
          obtain ⟨_, _, printed⟩ := Res.bind_eq_ok.mp printed
          obtain ⟨_, _, printed⟩ := Res.bind_eq_ok.mp printed
          obtain ⟨inner, third, _⟩ := Res.bind_eq_ok.mp printed
          exact deeper (ih (fun kind channel sync => noSync kind channel (.no sync)) third)
  | argument bound _ ih =>
      cases depth with
      | zero => cases printed
      | succ depth =>
          simp only [translateAux, bound] at printed
          exact deeper (ih (fun kind channel sync => noSync kind channel (.argument bound sync)) printed)

end

/-! ## References that are treated as declared -/

/-- A variable, a clock or a cell that is used the way its variable has been declared:
each subscript takes a split array for split and a whole array for whole, and the
index of a whole array is one that can be rendered. -/
inductive Consistent (env : Env) (p : Option Instance) (ctx : ContextPrefix) : Expr → Prop where
  | single {s : Symbol} {t : Ty} (unbound : mapped? p s = none)
      (noArray : (env.getType s).isArray = false) : Consistent env p ctx (.identifier s t)
  | cell {a i : Expr} {t : Ty} {c : Symbol} {indices : List Int}
      (path : SplitPath env p (.binary .array a i t) c indices) (last : t.isArray = false)
      (plain : rowsPlain (env.getType c) = true) : Consistent env p ctx (.binary .array a i t)
  | element {a i : Expr} {t : Ty} {c : Symbol} (array : WholeUse env p a c) (index : Faithful env p i)
      (names : ∀ s t', Written p (.identifier s t') i → mapped? p s = none →
        IsName (symbolName env ctx s)) : Consistent env p ctx (.binary .array a i t)

/-- The tree of the printed index counts from 0: its value is the index less the
lower bound, and an index within the bounds is one of TChecker's. -/
def CountsFrom (env : Env) (p : Option Instance) (ctx : ContextPrefix) (scope : List Symbol) (i : Expr)
    (min max : Int) (tree : Tree) : Prop :=
  ∀ (V : Type) (A : Arithmetic V) (f : State V → Option V), Means A p i (.value f) →
    ∀ σ τ, GivesConstants A env p σ → Carries env p ctx scope σ τ →
      (tree.value A τ).bind A.toInt = ((f σ).bind A.toInt).map (· - min) ∧
        ∀ n, (f σ).bind A.toInt = some n → min ≤ n → n ≤ max →
          0 ≤ n - min ∧ n - min < max - min + 1

/-- The text names what has been declared for the cell: a line of size 1, or an array
and the place of the cell in it. -/
inductive Matches (env : Env) (p : Option Instance) (ctx : ContextPrefix) (scope : List Symbol)
    (lines : List Line) : Expr → String → Prop where
  | cell {r : Expr} {c : Symbol} {indices : List Int} (denotes : Denotes env p r c indices)
      (inside : List.Forall₂ InBounds (shape env p (env.getType c)) indices)
      (declared : DeclaresSize lines (cellName (symbolName env ctx c) indices.reverse) 1) :
      Matches env p ctx scope lines r (cellName (symbolName env ctx c) indices.reverse)
  | element {a i : Expr} {t size : Ty} {c : Symbol} {min max : Int} {index : String} {tree : Tree}
      (array : Denotes env p a c []) (sized : (env.getType c).getArraySize? = some size)
      (range : IndexRange env p size (min, max))
      (declared : DeclaresSize lines (symbolName env ctx c) (max - min + 1))
      (reads : Expression index tree) (counts : CountsFrom env p ctx scope i min max tree) :
      Matches env p ctx scope lines (.binary .array a i t)
        (symbolName env ctx c ++ "[" ++ index ++ "]")

/-- The lines of the variable are in the output; its bounds may have been computed
with fewer bindings. -/
def HasDeclaration (env : Env) (p : Option Instance) (ctx : ContextPrefix) (lines : List Line)
    (c : Symbol) : Prop :=
  ∃ p' ls, Extends p' p ∧ DeclarationLines env p' (symbolName env ctx c)
    (stripLabels (env.getType c)) (env.initialiser c) ls ∧ ∀ l ∈ ls, l ∈ lines

section

variable {env : Env} {p : Option Instance} {r i : Expr} {scope : List Symbol} {lines : List Line}
  {depth : Nat} {ctx : ContextPrefix} {text : String}

/-- A valuation that carries a state over does so for fewer variables. -/
theorem Carries.narrow {V : Type} {σ : State V} {τ : Valuation V} {fewer : List Symbol}
    (carries : Carries env p ctx scope σ τ) (inside : ∀ c ∈ fewer, c ∈ scope) :
    Carries env p ctx fewer σ τ where
  cells c listed := carries.cells c (inside c listed)
  lines c listed := carries.lines c (inside c listed)

open Classical in
/-- An expression whose names are names of TChecker is rendered, whatever the other
variables are called. -/
theorem operand_of_named (checked : Checked env p scope i) (faithful : Faithful env p i)
    (names : ∀ s t, Written p (.identifier s t) i → mapped? p s = none → IsName (symbolName env ctx s))
    (printed : translateAux env depth p i ctx = .ok text) :
    ∃ tree, Operand text tree ∧ Renders env p ctx scope i tree := by
  let named := scope.filter fun c => decide (IsName (symbolName env ctx c))
  have member {c : Symbol} : c ∈ named ↔ c ∈ scope ∧ IsName (symbolName env ctx c) := by
    simp [named]
  have narrow : Checked env p named i :=
    { checked with
      visible := fun s t written unbound =>
        member.mpr ⟨checked.visible s t written unbound, names s t written unbound⟩ }
  obtain ⟨tree, operand, renders⟩ :=
    operand_of_faithful (fun c listed => (member.mp listed).2) faithful narrow printed
  refine ⟨tree, operand, fun V A f means σ τ constants carries => ?_⟩
  exact renders V A f means σ τ constants (carries.narrow fun c listed => (member.mp listed).1)

theorem Consistent.matches (consistent : Consistent env p ctx r) (checked : Checked env p scope r)
    (stored : ∀ c indices, Denotes env p r c indices → writesLines (env.getType c) = true)
    (declared : ∀ c ∈ scope, HasDeclaration env p ctx lines c)
    (printed : translateAux env depth p r ctx = .ok text) : Matches env p ctx scope lines r text := by
  cases consistent with
  | @single s t unbound noArray =>
      have denotes : Denotes env p (.identifier s t) s [] := .declared unbound
      obtain ⟨p', ls, more, printed', inside⟩ := declared s (checked.visible s t .self unbound)
      have split : oneDim env s = false := by
        rw [oneDim, looksOneDim, noArray, Bool.false_and, Bool.false_and]
      have plain := rowsPlain_of_single noArray
      have bounds : List.Forall₂ InBounds (shape env p (env.getType s)) [] := by
        rw [shape_eq_nil noArray]
        exact .nil
      rw [translateAux_whole denotes printed]
      exact .cell denotes bounds
        ((declared_of_split more printed' split plain (stored s [] denotes) bounds).mono inside)
  | @cell a i t c indices path last plain =>
      obtain ⟨front, same, within⟩ := path.inBounds checked printed
      rw [show (Expr.binary .array a i t).type = t from rfl, shape_eq_nil last, List.append_nil] at same
      rw [← same] at within
      obtain ⟨p', ls, more, printed', inside⟩ := declared c (scope_of_denotes checked path.denotes)
      rw [path.printed_eq checked printed]
      exact .cell path.denotes within ((declared_of_split more printed' path.split plain
        (stored c indices path.denotes) within).mono inside)
  | @element a i t c array index names =>
      cases depth with
      | zero => cases printed
      | succ depth =>
          obtain ⟨⟨answer, min, max⟩, decided, _⟩ := Res.bind_eq_ok.mp printed
          obtain ⟨rfl, bounds⟩ := array.use_eq checked.left decided
          obtain ⟨front, inner, first, second, rfl⟩ := translated_index decided printed
          obtain ⟨p', ls, more, printed', inside⟩ :=
            declared c (scope_of_denotes checked.left array.denotes)
          obtain ⟨tree, operand, renders⟩ := operand_of_named checked.right index names second
          have grouped (name : String) : name ++ "[" ++ inner ++ offsetText min ++ "]" =
              name ++ "[" ++ (inner ++ offsetText min) ++ "]" := by simp only [String.append_assoc]
          rw [translateAux_whole array.denotes first, grouped]
          obtain ⟨size, sized, range⟩ := array.exact.range bounds
          refine .element array.denotes sized range
            ((declared_of_whole more printed' array.line bounds).mono inside)
            (expression_offset operand min) ?_
          intro V A f means σ τ constants carries
          refine ⟨value_offset A τ (renders V A f means σ τ constants carries) min, ?_⟩
          intro n _ lower upper
          omega

end

end Utot
