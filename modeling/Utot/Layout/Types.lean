import Utot.Labels.Evaluation
import Utot.Translate.Declarations

/-!
# Shapes of array types

What the translator reads off the type of an array and off its initialiser: the
bounds of each dimension, and whether TChecker has an array like it.  Both
decisions, the one for a declaration and the one for a use, are these two
questions.
-/

namespace Utot

open Utap

/-! ## Dimensions -/

/-- The bounds of the index of an array. -/
def indexBounds (env : Env) (p : Option Instance) (t : Ty) : Res (Int × Int) := do
  let size ← orAssert "getKind () == ARRAY" t.getArraySize?
  computeRangeBounds env p size

/-- The bounds of the indices of all dimensions. -/
def shape (env : Env) (p : Option Instance) : Ty → List (Res (Int × Int))
  | .prim _ => []
  | .pre _ t => shape env p t
  | .ref t => shape env p t
  | .label _ t => shape env p t
  | .range t _ _ =>
      if t.isArray then .error (.assertion "getKind () == ARRAY") :: shape env p t else []
  | .array sub size => computeRangeBounds env p size :: shape env p sub
  | .record _ _ => []

section

variable {env : Env} {p : Option Instance}

/-- The bounds `compute_range_bounds` stores. -/
theorem bounds_of_computeRangeBounds {size : Ty} {min max : Int}
    (computed : computeRangeBounds env p size = .ok (min, max)) :
    ∃ lower upper, size.getRange? = some (lower, upper) ∧
      evalIntegerConstant env p lower = .ok min ∧ evalIntegerConstant env p upper = .ok max ∧
        min ≤ max := by
  obtain ⟨_, _, computed⟩ := Res.bind_eq_ok.mp computed
  obtain ⟨_, _, computed⟩ := Res.bind_eq_ok.mp computed
  obtain ⟨_, _, computed⟩ := Res.bind_eq_ok.mp computed
  obtain ⟨⟨lower, upper⟩, found, computed⟩ := Res.bind_eq_ok.mp computed
  obtain ⟨least, first, computed⟩ := Res.bind_eq_ok.mp computed
  obtain ⟨greatest, second, computed⟩ := Res.bind_eq_ok.mp computed
  rw [getRange?_stripLabelsAndConst] at found
  split at computed
  · cases computed
  · rename_i nonempty
    cases computed
    exact ⟨lower, upper, orAssert_eq_ok.mp found, first, second, Int.not_lt.mp nonempty⟩

theorem shape_of_isArray {t : Ty} (array : t.isArray = true) :
    ∃ rest, shape env p t = indexBounds env p t :: rest := by
  fun_induction shape env p t with
  | case1 k => cases array
  | case2 k t ih => exact ih array
  | case3 t ih => exact ih array
  | case4 name t ih => exact ih array
  | case5 t lower upper inner => exact ⟨_, rfl⟩
  | case6 t lower upper notInner => exact absurd array notInner
  | case7 sub size => exact ⟨_, rfl⟩
  | case8 labels fields => cases array

/-- What has cells is an array. -/
theorem getArraySize?_stripLabels (t : Ty) : (stripLabels t).getArraySize? = t.getArraySize? := by
  fun_induction stripLabels t with
  | case1 name t ih => exact ih
  | case2 t => rfl

theorem getArraySize?_of_typed {t t' : Ty} (typed : stripLabels t' = stripLabels t) :
    t'.getArraySize? = t.getArraySize? := by
  rw [← getArraySize?_stripLabels t', typed, getArraySize?_stripLabels]

theorem stripArray_stripLabels (t : Ty) : (stripLabels t).stripArray = t.stripArray := by
  fun_induction stripLabels t with
  | case1 name t ih => exact ih
  | case2 t => rfl

theorem stripArray_of_typed {t t' : Ty} (typed : stripLabels t' = stripLabels t) :
    t'.stripArray = t.stripArray := by
  rw [← stripArray_stripLabels t', typed, stripArray_stripLabels]

theorem isArray_of_getArraySize? : ∀ {t size : Ty}, t.getArraySize? = some size → t.isArray = true
  | .prim _, _, sized => by cases sized
  | .pre _ t, _, sized => isArray_of_getArraySize? (t := t) sized
  | .ref t, _, sized => isArray_of_getArraySize? (t := t) sized
  | .label _ t, _, sized => isArray_of_getArraySize? (t := t) sized
  | .range _ _ _, _, sized => by cases sized
  | .array _ _, _, _ => rfl
  | .record _ _, _, sized => by cases sized

theorem shape_eq_nil {t : Ty} (single : t.isArray = false) : shape env p t = [] := by
  fun_induction shape env p t with
  | case1 k => rfl
  | case2 k t ih => exact ih single
  | case3 t ih => exact ih single
  | case4 name t ih => exact ih single
  | case5 t lower upper inner => exact absurd (inner.symm.trans single) Bool.noConfusion
  | case6 t lower upper notInner => rfl
  | case7 sub size => cases single
  | case8 labels fields => rfl

/-- The cells of an array have its shape without the first dimension. -/
theorem shape_getSub {t sub : Ty} (cells : t.getSub? = some sub) :
    ∃ bounds, shape env p t = bounds :: shape env p sub := by
  fun_induction shape env p t generalizing sub with
  | case1 k => cases cells
  | case2 k t ih =>
      obtain ⟨inner, found, whole⟩ := Option.map_eq_some_iff.mp cells
      obtain ⟨bounds, split⟩ := ih found
      rw [← whole]
      exact ⟨bounds, split⟩
  | case3 t ih => exact ih cells
  | case4 name t ih => exact ih cells
  | case5 t lower upper inner =>
      rw [Ty.getSub?, if_pos inner] at cells
      cases cells
      exact ⟨_, rfl⟩
  | case6 t lower upper notInner =>
      rw [Ty.getSub?, if_neg notInner] at cells
      cases cells
  | case7 sub size =>
      cases cells
      exact ⟨_, rfl⟩
  | case8 labels fields => cases cells

theorem isArray_of_shape {t : Ty} {bounds : Res (Int × Int)} {rest : List (Res (Int × Int))}
    (split : shape env p t = bounds :: rest) : t.isArray = true ∧ bounds = indexBounds env p t := by
  cases array : t.isArray with
  | false =>
      rw [shape_eq_nil array] at split
      cases split
  | true =>
      obtain ⟨rest', first⟩ : ∃ rest, shape env p t = indexBounds env p t :: rest :=
        shape_of_isArray array
      rw [first] at split
      cases split
      exact ⟨rfl, rfl⟩

end

/-! ## The two questions -/

/-- An array whose cells are of a kind TChecker knows, and no arrays themselves. -/
def looksOneDim (t : Ty) : Bool :=
  t.isArray && match (stripRefsAndLabels t).first? with
    | none => false
    | some elem => !elem.isArray && isCellKind (stripRefsAndLabels elem).kind

/-- The entries of an initialiser, which may be the name of another array. -/
def entriesOf (env : Env) : Expr → List Expr
  | .identifier s _ => ((env.initialiser s).map Expr.subs).getD []
  | e => e.subs

/-- All entries of the initialiser are equal; there may be no initialiser. -/
def entriesEqual (env : Env) : Option Expr → Bool
  | none => true
  | some e => match entriesOf env e with
    | [] => true
    | val :: rest => rest.all val.equal

/-- TChecker has an array like the declared variable. -/
def oneDim (env : Env) (c : Symbol) : Bool :=
  looksOneDim (env.getType c) && entriesEqual env (env.initialiser c)

section

variable {env : Env} {p : Option Instance}

theorem isOneDimArrayType_eq_ok {t : Ty} {minsz maxsz : Int} {basetype : Option Ty}
    (decided : isOneDimArrayType env p t = .ok (minsz, maxsz, basetype)) :
    t.isArray = true ∧ indexBounds env p t = .ok (minsz, maxsz) ∧
      basetype.isSome = looksOneDim t := by
  obtain ⟨_, array, decided⟩ := Res.bind_eq_ok.mp decided
  obtain ⟨size, sized, decided⟩ := Res.bind_eq_ok.mp decided
  obtain ⟨bounds, ranged, decided⟩ := Res.bind_eq_ok.mp decided
  obtain ⟨elem, first, decided⟩ := Res.bind_eq_ok.mp decided
  have isArray : t.isArray = true := by
    unfold assertThat at array
    split at array
    · assumption
    · cases array
  have bounded : indexBounds env p t = .ok bounds :=
    Res.bind_eq_ok.mpr ⟨size, sized, ranged⟩
  have looks : looksOneDim t =
      (!elem.isArray && isCellKind (stripRefsAndLabels elem).kind) := by
    rw [looksOneDim, isArray, orAssert_eq_ok.mp first, Bool.true_and]
  dsimp only at decided
  split at decided
  · rename_i nested
    cases decided
    exact ⟨isArray, bounded, by rw [looks, nested]; rfl⟩
  · rename_i flat
    cases decided
    refine ⟨isArray, bounded, ?_⟩
    rw [looks, Bool.eq_false_iff.mpr flat, Bool.not_false, Bool.true_and]
    cases isCellKind (stripRefsAndLabels elem).kind <;> rfl

theorem entriesOf_eq {e list : Expr} (named : namedInitialiser env e = .ok list) :
    entriesOf env e = list.subs := by
  unfold namedInitialiser at named
  split at named
  · rename_i s t
    split at named
    · cases named
    · rename_i var data
      split at named
      · cases named
      · rename_i init given
        cases named
        rw [entriesOf, Env.initialiser, data, Option.bind_some, given]
        rfl
  · rename_i other
    cases named
    unfold entriesOf
    split
    · rename_i s t
      exact absurd rfl (other s t)
    · rfl

theorem areAllEqualsInList_eq_ok {init val : Option Expr} {equal : Bool}
    (decided : areAllEqualsInList env p init = .ok (equal, val)) : equal = entriesEqual env init := by
  cases init with
  | none =>
      cases decided
      rfl
  | some e =>
      obtain ⟨_, _, decided⟩ := Res.bind_eq_ok.mp decided
      obtain ⟨list, named, decided⟩ := Res.bind_eq_ok.mp decided
      obtain ⟨size, _, decided⟩ := Res.bind_eq_ok.mp decided
      obtain ⟨bounds, _, decided⟩ := Res.bind_eq_ok.mp decided
      obtain ⟨count, _, decided⟩ := Res.bind_eq_ok.mp decided
      split at decided
      · cases decided
      · obtain ⟨first, found, decided⟩ := Res.bind_eq_ok.mp decided
        have entries := entriesOf_eq named
        have head := orAssert_eq_ok.mp found
        cases subs : list.subs with
        | nil =>
            rw [subs] at head
            cases head
        | cons x rest =>
            rw [subs] at head decided entries
            cases head
            cases decided
            rw [entriesEqual, entries]
            rfl

/-- The decision for a use, by the type of the subscripted expression and the
initialiser of its root. -/
theorem isOneDimArrayVariable_eq_ok {e : Expr} {answer : Bool} {minsz maxsz : Int}
    (decided : isOneDimArrayVariable env p e = .ok (answer, minsz, maxsz)) :
    e.type.isArray = true ∧ indexBounds env p e.type = .ok (minsz, maxsz) ∧
      answer = (looksOneDim e.type &&
        e.getSymbol?.elim false fun s => entriesEqual env (env.initialiser s)) := by
  obtain ⟨⟨minsz', maxsz', basetype⟩, type, decided⟩ := Res.bind_eq_ok.mp decided
  obtain ⟨isArray, bounded, looks⟩ := isOneDimArrayType_eq_ok type
  dsimp only at decided
  split at decided
  · cases decided
    rw [← looks]
    exact ⟨isArray, bounded, rfl⟩
  · split at decided
    · cases decided
    · rename_i s symbol
      split at decided
      · rename_i data
        cases decided
        rw [← looks, symbol, Option.elim_some, Env.initialiser, data]
        exact ⟨isArray, bounded, rfl⟩
      · rename_i var data
        obtain ⟨⟨equal, val⟩, compared, decided⟩ := Res.bind_eq_ok.mp decided
        have same := areAllEqualsInList_eq_ok compared
        cases decided
        rw [← looks, symbol, Option.elim_some, Env.initialiser, data, Option.bind_some, ← same]
        exact ⟨isArray, bounded, rfl⟩

/-- The decision for a declaration. -/
theorem oneDimDeclaration_eq_ok {t : Ty} {init : Option Expr}
    {answer : Option (Int × Int × Ty × Option Expr)}
    (decided : oneDimDeclaration env p t init = .ok answer) :
    t.isArray = true ∧ answer.isSome = (looksOneDim t && entriesEqual env init) ∧
      ∀ minsz maxsz basetype val, answer = some (minsz, maxsz, basetype, val) →
        indexBounds env p t = .ok (minsz, maxsz) := by
  obtain ⟨⟨minsz', maxsz', basetype'⟩, type, decided⟩ := Res.bind_eq_ok.mp decided
  obtain ⟨isArray, bounded, looks⟩ := isOneDimArrayType_eq_ok type
  dsimp only at decided
  split at decided
  · cases decided
    rw [← looks]
    exact ⟨isArray, rfl, fun _ _ _ _ same => by cases same⟩
  · obtain ⟨⟨equal, val'⟩, compared, decided⟩ := Res.bind_eq_ok.mp decided
    have same := areAllEqualsInList_eq_ok compared
    rw [← looks, ← same]
    cases equal with
    | false =>
        cases decided
        exact ⟨isArray, rfl, fun _ _ _ _ same => by cases same⟩
    | true =>
        cases decided
        refine ⟨isArray, rfl, ?_⟩
        intro minsz maxsz basetype val same
        cases same
        exact bounded

end

end Utot
