import Utot.Format.ReadBack
import Utot.Parameters.Evaluation

/-!
# Layouts after a substitution

Whether a subscripted expression is an array of TChecker, and within which
bounds, is decided with the mapping as it is decided after the substitution: for
a parameter by the type of its argument, for a variable by its initialiser.
-/

namespace Utot

open Utap Uppaal Library

/-! ## Types -/

section

variable {σ : Bindings}

theorem stripRefsAndLabels_subst (t : Ty) :
    stripRefsAndLabels (t.subst σ) = (stripRefsAndLabels t).subst σ := by
  fun_induction stripRefsAndLabels t with
  | case1 t ih => exact ih
  | case2 name t ih => exact ih
  | case3 t noRef noLabel =>
      cases t with
      | ref t => exact absurd rfl (noRef t)
      | label name t => exact absurd rfl (noLabel name t)
      | _ => rfl

theorem looksOneDim_subst (t : Ty) : looksOneDim (t.subst σ) = looksOneDim t := by
  unfold looksOneDim
  rw [Ty.isArray_subst, stripRefsAndLabels_subst, Ty.first?_subst]
  cases (stripRefsAndLabels t).first? with
  | none => rfl
  | some elem =>
      dsimp only [Option.map]
      rw [Ty.isArray_subst, stripRefsAndLabels_subst, Ty.kind_subst]

/-- An array has cells below its references and labels. -/
theorem first?_of_isArray {t : Ty} (array : t.isArray = true) :
    ∃ elem, (stripRefsAndLabels t).first? = some elem := by
  fun_induction stripRefsAndLabels t with
  | case1 t ih => exact ih array
  | case2 name t ih => exact ih array
  | case3 t noRef noLabel =>
      cases t with
      | prim k => cases array
      | record labels fields => cases array
      | _ => exact ⟨_, rfl⟩

theorem isOneDimArrayType_of_bounds {env : Env} {p : Option Instance} {t : Ty} {minsz maxsz : Int}
    (array : t.isArray = true) (bounded : indexBounds env p t = .ok (minsz, maxsz)) :
    ∃ basetype, isOneDimArrayType env p t = .ok (minsz, maxsz, basetype) := by
  obtain ⟨elem, first⟩ := first?_of_isArray array
  obtain ⟨size, sized, ranged⟩ := Res.bind_eq_ok.mp bounded
  unfold isOneDimArrayType
  rw [array]
  change ∃ basetype, (orAssert _ t.getArraySize? >>= _) = _
  rw [sized]
  change ∃ basetype, (computeRangeBounds env p size >>= _) = _
  rw [ranged]
  change ∃ basetype, (orAssert _ (stripRefsAndLabels t).first? >>= _) = _
  rw [first]
  change ∃ basetype, (if elem.isArray = true then _ else _) = _
  cases elem.isArray with
  | true => exact ⟨none, rfl⟩
  | false => exact ⟨_, rfl⟩

end

/-! ## Ends of chains of arguments -/

/-- Following arguments from `e` leads to `r`, which is no parameter. -/
inductive StandsFor (p : Option Instance) : Expr → Expr → Prop where
  | here {e : Expr} (free : ∀ s t, e = .identifier s t → mapped? p s = none) : StandsFor p e e
  | argument {s : Symbol} {t : Ty} {argument r : Expr} (bound : mapped? p s = some argument)
      (later : StandsFor p argument r) : StandsFor p (.identifier s t) r

/-- What the type checker promises about parameters: their arguments have their shapes. -/
def ArgumentsFit (env : Env) (p : Option Instance) (e : Expr) : Prop :=
  ∀ s t argument, PrintedIn env p (.identifier s t) e → mapped? p s = some argument →
    shape env p t = shape env p argument.type

section

variable {env : Env} {σ : Bindings} {p : Option Instance} {e r x : Expr} {s : Symbol}

theorem meets_of_printedIn (inside : PrintedIn env p x e) : Meets env p x e := by
  have second {y z : Expr} : z ∈ [y, z] := List.mem_cons_of_mem _ List.mem_cons_self
  induction inside with
  | self => exact .refl
  | unary _ ih => exact ih.tail (.sub List.mem_cons_self)
  | left _ ih => exact ih.tail (.sub List.mem_cons_self)
  | right _ _ ih => exact ih.tail (.sub second)
  | index _ _ ih => exact ih.tail (.sub second)
  | cond _ ih => exact ih.tail (.sub List.mem_cons_self)
  | yes _ ih => exact ih.tail (.sub (List.mem_cons_of_mem _ List.mem_cons_self))
  | no _ ih => exact ih.tail (.sub (List.mem_cons_of_mem _ second))
  | argument bound _ ih => exact ih.tail (.argument bound)
  | channel _ ih => exact ih.tail (.sub List.mem_cons_self)

theorem ArgumentsFit.within (fit : ArgumentsFit env p e) (inside : PrintedIn env p x e) :
    ArgumentsFit env p x :=
  fun s t argument printed => fit s t argument (printed.trans inside)

theorem StandsFor.printedIn (stands : StandsFor p e r) : PrintedIn env p r e := by
  induction stands with
  | here => exact .self
  | argument bound _ ih => exact .argument bound ih

theorem StandsFor.subst_eq (stands : StandsFor p e r) (solved : Solves σ p) :
    e.subst σ = r.subst σ := by
  induction stands with
  | here => rfl
  | argument bound _ ih => exact (solved.bound bound).trans ih

theorem StandsFor.free (stands : StandsFor p e r) {t : Ty} (symbol : r = .identifier s t) :
    mapped? p s = none := by
  induction stands with
  | here free => exact free s t symbol
  | argument _ _ ih => exact ih symbol

theorem StandsFor.type_eq (stands : StandsFor p e r) (solved : Solves σ p) :
    (e.subst σ).type = r.type.subst σ := by
  rw [stands.subst_eq solved]
  exact Expr.type_subst fun s t symbol => solved.unbound (stands.free symbol)

theorem StandsFor.fits (stands : StandsFor p e r) (fit : ArgumentsFit env p e) :
    shape env p e.type = shape env p r.type := by
  induction stands with
  | here => rfl
  | argument bound _ ih => exact (fit _ _ _ .self bound).trans (ih (fit.within (.argument bound .self)))

/-! ## Bounds -/

theorem computeRangeBounds_subst (solved : Solves σ p) (evaluable : Evaluable env p e) {size : Ty}
    {bounds : Int × Int} (sized : e.type.getArraySize? = some size)
    (computed : computeRangeBounds env p size = .ok bounds) :
    computeRangeBounds (env.subst σ) none (size.subst σ) = .ok bounds := by
  refine lifts_bounds_subst (fun lower upper ranged => ?_) bounds computed
  obtain ⟨least, greatest⟩ := evaluable.ranges e size lower upper .refl sized ranged
  constructor
  · exact fun v => evalAux_subst solved (evaluable.next (.lower sized ranged)) least
  · exact fun v => evalAux_subst solved (evaluable.next (.upper sized ranged)) greatest

/-- The bounds at a subscript are those of what the parameter stands for. -/
theorem indexBounds_subst (solved : Solves σ p) (evaluable : Evaluable env p e)
    (fit : ArgumentsFit env p e) (stands : StandsFor p e r) {bounds : Int × Int}
    (bounded : indexBounds env p e.type = .ok bounds) :
    indexBounds (env.subst σ) none (e.subst σ).type = .ok bounds := by
  obtain ⟨size, sized, _⟩ := Res.bind_eq_ok.mp bounded
  obtain ⟨rest, split⟩ : ∃ rest, shape env p e.type = indexBounds env p e.type :: rest :=
    shape_of_isArray (isArray_of_getArraySize? (orAssert_eq_ok.mp sized))
  rw [stands.fits fit] at split
  obtain ⟨_, same⟩ := isArray_of_shape split
  rw [same] at bounded
  obtain ⟨size', sized', computed⟩ := Res.bind_eq_ok.mp bounded
  have inner := computeRangeBounds_subst solved
    (evaluable.within (meets_of_printedIn stands.printedIn)) (orAssert_eq_ok.mp sized') computed
  rw [indexBounds, stands.type_eq solved, Ty.getArraySize?_subst, orAssert_eq_ok.mp sized']
  exact inner

/-! ## Initialisers -/

/-- `after` is `before` with arguments in its type, and perhaps in its entries. -/
structure Renews (σ : Bindings) (before after : Expr) : Prop where
  type : after.type = before.type.subst σ
  size : after.subs.length = before.subs.length
  symbol : ∀ s t, before = .identifier s t → ∃ t', after = .identifier s t'
  noSymbol : (∀ s t, before ≠ .identifier s t) → ∀ s t, after ≠ .identifier s t

theorem renews_substType (init : Expr) : Renews σ init (init.substType σ) where
  type := type_substType init
  size := by rw [subs_substType]
  symbol := by
    rintro s t rfl
    exact ⟨_, rfl⟩
  noSymbol other s t same := by
    cases init with
    | identifier s' t' => exact other s' t' rfl
    | _ => cases same

theorem renews_subst {init : Expr} (free : ∀ s t, init = .identifier s t → σ s = none) :
    Renews σ init (init.subst σ) where
  type := Expr.type_subst free
  size := by
    cases init with
    | identifier s t =>
        rw [Expr.subst, free s t rfl]
        rfl
    | nary k es t =>
        rw [Expr.subs_subst (by rintro s t ⟨⟩), List.length_map]
    | _ => rfl
  symbol := by
    rintro s t rfl
    rw [Expr.subst, free s t rfl]
    exact ⟨_, rfl⟩
  noSymbol other s t same := by
    cases init with
    | identifier s' t' => exact other s' t' rfl
    | _ => cases same

/-- What the eager environment has for an initialiser that is no parameter. -/
theorem renews_initialiser {init : Expr} (given : env.initialiser s = some init)
    (free : ∀ s t, init = .identifier s t → σ s = none) :
    ∃ init', (env.subst σ).initialiser s = some init' ∧ Renews σ init init' := by
  rw [initialiser_subst, given, Option.map_some]
  refine ⟨_, rfl, ?_⟩
  split
  · exact renews_subst free
  · exact renews_substType init

theorem getData_of_initialiser {init : Expr} (given : env.initialiser s = some init) :
    ∃ var, env.getData s = some var ∧ var.expr = some init := Option.bind_eq_some_iff.mp given

theorem namedInitialiser_of_symbol {init : Expr} {t : Ty} (given : env.initialiser s = some init) :
    namedInitialiser env (.identifier s t) = .ok init := by
  obtain ⟨var, data, expr⟩ := getData_of_initialiser given
  unfold namedInitialiser
  dsimp only
  rw [data]
  dsimp only
  rw [expr]

theorem namedInitialiser_of_list {init : Expr} (other : ∀ s t, init ≠ .identifier s t) :
    namedInitialiser env init = .ok init := by
  cases init with
  | identifier s t => exact absurd rfl (other s t)
  | _ => rfl

/-- The list behind an initialiser: the initialiser itself, or that of the array it names. -/
theorem namedInitialiser_eq_ok {init list : Expr} (named : namedInitialiser env init = .ok list) :
    (∃ s t, init = .identifier s t ∧ env.initialiser s = some list) ∨
      (∀ s t, init ≠ .identifier s t) ∧ list = init := by
  cases init with
  | identifier s t =>
      left
      refine ⟨s, t, rfl, ?_⟩
      unfold namedInitialiser at named
      dsimp only at named
      cases data : env.getData s with
      | none =>
          rw [data] at named
          cases named
      | some var =>
          rw [data] at named
          dsimp only at named
          cases expr : var.expr with
          | none =>
              rw [expr] at named
              cases named
          | some init =>
              rw [expr] at named
              cases named
              rw [Env.initialiser, data]
              exact expr
  | _ =>
      right
      cases named
      exact ⟨fun s t => Expr.noConfusion, rfl⟩

/-- The comparison of the entries as a whole. -/
theorem areAllEqualsInList_of {q : Option Instance} {init list : Expr} {size : Ty} {minsz maxsz sz : Int}
    (array : init.type.isArray = true) (named : namedInitialiser env init = .ok list)
    (sized : list.type.getArraySize? = some size)
    (bounded : computeRangeBounds env q size = .ok (minsz, maxsz))
    (counted : checkedInt (maxsz - minsz + 1) = .ok sz) (fits : (list.subs.length : Int) = sz)
    (nonempty : list.subs ≠ []) : ∃ answer, areAllEqualsInList env q (some init) = .ok answer := by
  obtain ⟨first, rest, entries⟩ := List.exists_cons_of_ne_nil nonempty
  unfold areAllEqualsInList
  dsimp only
  rw [array]
  change ∃ answer, (namedInitialiser env init >>= _) = _
  rw [named]
  change ∃ answer, (orAssert _ list.type.getArraySize? >>= _) = _
  rw [sized]
  change ∃ answer, (computeRangeBounds env q size >>= _) = _
  rw [bounded]
  change ∃ answer, (checkedInt (maxsz - minsz + 1) >>= _) = _
  rw [counted]
  change ∃ answer, (if (list.subs.length : Int) ≠ sz then _ else _) = _
  rw [if_neg (not_not.mpr fits), entries]
  exact ⟨_, rfl⟩

/-- The comparison of the entries does not fail where it has not failed. -/
theorem areAllEqualsInList_subst (solved : Solves σ p) {init : Expr} {answer : Bool × Option Expr}
    {t : Ty} (evaluable : Evaluable env p (.identifier s t)) (given : env.initialiser s = some init)
    (compared : areAllEqualsInList env p (some init) = .ok answer) :
    ∃ init', (env.subst σ).initialiser s = some init' ∧
      ∃ answer', areAllEqualsInList (env.subst σ) none (some init') = .ok answer' := by
  obtain ⟨_, array, compared⟩ := Res.bind_eq_ok.mp compared
  obtain ⟨list, named, compared⟩ := Res.bind_eq_ok.mp compared
  obtain ⟨size, sized, compared⟩ := Res.bind_eq_ok.mp compared
  obtain ⟨⟨minsz, maxsz⟩, bounded, compared⟩ := Res.bind_eq_ok.mp compared
  obtain ⟨sz, counted, compared⟩ := Res.bind_eq_ok.mp compared
  split at compared
  · cases compared
  rename_i fits
  replace fits : (list.subs.length : Int) = sz := not_not.mp fits
  -- the list has an entry, and is no symbol
  have nonempty : list.subs ≠ [] := by
    intro none
    obtain ⟨_, _, _, _, _, ordered⟩ := bounds_of_computeRangeBounds bounded
    have same := checkedInt_eq_ok counted
    rw [none] at fits
    change ((0 : Nat) : Int) = sz at fits
    omega
  have noSymbol : ∀ s t, list ≠ .identifier s t := by
    rintro s t rfl
    exact nonempty rfl
  have isArray : init.type.isArray = true := by
    unfold assertThat at array
    split at array
    · assumption
    · cases array
  obtain ⟨init', list', given', renewed, named', renewedList, inside⟩ : ∃ init' list',
      (env.subst σ).initialiser s = some init' ∧ init'.type = init.type.subst σ ∧
        namedInitialiser (env.subst σ) init' = .ok list' ∧ Renews σ list list' ∧
          Meets env p list init := by
    rcases namedInitialiser_eq_ok named with ⟨s', t', rfl, behind⟩ | ⟨_, rfl⟩
    · have free := evaluable.unbound_of_initialiser behind
      obtain ⟨init', given', renews⟩ := renews_initialiser (σ := σ) given fun x _ same => by
        cases same
        exact solved.unbound free
      obtain ⟨list', behind', renewsList⟩ := renews_initialiser (σ := σ) behind fun x t same =>
        absurd same (noSymbol x t)
      obtain ⟨t'', rfl⟩ := renews.symbol s' t' rfl
      exact ⟨_, list', given', renews.type, namedInitialiser_of_symbol behind', renewsList,
        .single (.initialiser behind)⟩
    · obtain ⟨init', given', renews⟩ := renews_initialiser (σ := σ) given fun x t same =>
        absurd same (noSymbol x t)
      exact ⟨init', init', given', renews.type, namedInitialiser_of_list (renews.noSymbol noSymbol),
        renews, .refl⟩
  have behind := (evaluable.next (.initialiser given)).within inside
  have sized' : list'.type.getArraySize? = some (size.subst σ) := by
    rw [renewedList.type, Ty.getArraySize?_subst, orAssert_eq_ok.mp sized, Option.map_some]
  refine ⟨init', given', areAllEqualsInList_of ?_ named' sized' ?_ counted ?_ ?_⟩
  · rw [renewed, Ty.isArray_subst, isArray]
  · exact computeRangeBounds_subst solved behind (orAssert_eq_ok.mp sized) bounded
  · rw [renewedList.size, fits]
  · intro none
    have size := renewedList.size
    rw [none] at size
    exact nonempty (List.eq_nil_of_length_eq_zero size.symm)

/-! ## The decision -/

/-- The root of an expression is met below it. -/
theorem meets_symbol (symbol : e.getSymbol? = some s) : ∃ t, Meets env p (.identifier s t) e := by
  fun_induction Expr.getSymbol? e
  case case1 x t =>
    cases symbol
    exact ⟨t, .refl⟩
  all_goals first
    | cases symbol
    | rename_i ih
      obtain ⟨t, inside⟩ := ih symbol
      first
        | exact ⟨t, inside.tail (.sub List.mem_cons_self)⟩
        | exact ⟨t, inside.tail (.sub (List.mem_cons_of_mem _ List.mem_cons_self))⟩

/-- The root stays the root, when it is no parameter. -/
theorem getSymbol?_subst (symbol : e.getSymbol? = some s) (free : σ s = none) :
    (e.subst σ).getSymbol? = some s := by
  fun_induction Expr.getSymbol? e
  case case1 x t =>
    cases symbol
    rw [Expr.subst, free]
    rfl
  all_goals first
    | cases symbol
    | rename_i ih
      exact ih symbol

/-- `a` is an array of TChecker (`answer` is true) or none: the type says so, and then the
entries at its root. -/
def Answers (env : Env) (p : Option Instance) (a : Expr) (answer : Bool) : Prop :=
  if looksOneDim a.type = true then
    ∃ s, a.getSymbol? = some s ∧ (env.getData s = none → answer = true) ∧
      ∀ var, env.getData s = some var → ∃ val, areAllEqualsInList env p var.expr = .ok (answer, val)
  else answer = false

/-- The substitution leaves the layout of the array `a` as it is.  Entries of a variable or
a constant are not equal only after it, and a parameter stands for an array that is taken
for what the type of the parameter says. -/
structure KeepsLayout (env : Env) (σ : Bindings) (p : Option Instance) (a : Expr) : Prop where
  declared : ∀ s, looksOneDim a.type = true → a.getSymbol? = some s → mapped? p s = none →
    entriesEqual (env.subst σ) ((env.subst σ).initialiser s) = entriesEqual env (env.initialiser s)
  parameter : ∀ s argument, a.getSymbol? = some s → mapped? p s = some argument →
    Answers (env.subst σ) none (a.subst σ) (looksOneDim a.type)

/-- For an array TChecker knows the entries of its root have been compared. -/
theorem isOneDimArrayVariable_symbol {a : Expr} {answer : Bool} {minsz maxsz : Int}
    (known : looksOneDim a.type = true)
    (decided : isOneDimArrayVariable env p a = .ok (answer, minsz, maxsz)) :
    ∃ s, a.getSymbol? = some s ∧ ∀ var, env.getData s = some var →
      ∃ equal, areAllEqualsInList env p var.expr = .ok equal := by
  obtain ⟨⟨minsz', maxsz', basetype⟩, type, decided⟩ := Res.bind_eq_ok.mp decided
  have kind := (isOneDimArrayType_eq_ok type).2.2
  rw [known] at kind
  cases basetype with
  | none => cases kind
  | some basetype =>
      dsimp only at decided
      cases symbol : a.getSymbol? with
      | none =>
          rw [symbol] at decided
          cases decided
      | some s =>
          refine ⟨s, rfl, fun var data => ?_⟩
          rw [symbol] at decided
          dsimp only at decided
          rw [data] at decided
          obtain ⟨equal, compared, _⟩ := Res.bind_eq_ok.mp decided
          exact ⟨equal, compared⟩

theorem answers_of_decided {a : Expr} {answer : Bool} {minsz maxsz : Int}
    (decided : isOneDimArrayVariable env p a = .ok (answer, minsz, maxsz)) : Answers env p a answer := by
  have decision := (isOneDimArrayVariable_eq_ok decided).2.2
  unfold Answers
  cases known : looksOneDim a.type with
  | false =>
      rw [known] at decision
      exact decision
  | true =>
      obtain ⟨s, symbol, compared⟩ := isOneDimArrayVariable_symbol known decided
      rw [known, symbol, Option.elim_some, Bool.true_and] at decision
      rw [if_pos rfl]
      refine ⟨s, symbol, fun absent => ?_, fun var data => ?_⟩
      · rw [decision, Env.initialiser, absent]
        rfl
      · obtain ⟨⟨equal, val⟩, compared⟩ := compared var data
        rw [decision, Env.initialiser, data, Option.bind_some, ← areAllEqualsInList_eq_ok compared]
        exact ⟨val, compared⟩

theorem Answers.decides {a : Expr} {answer : Bool} {minsz maxsz : Int} (answers : Answers env p a answer)
    (array : a.type.isArray = true) (bounded : indexBounds env p a.type = .ok (minsz, maxsz)) :
    isOneDimArrayVariable env p a = .ok (answer, minsz, maxsz) := by
  obtain ⟨basetype, type⟩ := isOneDimArrayType_of_bounds array bounded
  have kind := (isOneDimArrayType_eq_ok type).2.2
  unfold Answers at answers
  rw [← kind] at answers
  refine Res.bind_eq_ok.mpr ⟨_, type, ?_⟩
  cases basetype with
  | none =>
      rw [show answer = false from answers]
  | some basetype =>
      obtain ⟨s, symbol, absent, present⟩ := answers
      dsimp only
      rw [symbol]
      dsimp only
      cases data : env.getData s with
      | none => rw [absent data]
      | some var =>
          obtain ⟨val, compared⟩ := present var data
          exact Res.bind_eq_ok.mpr ⟨_, compared, rfl⟩

theorem comparedData_subst (solved : Solves σ p) {t : Ty} (evaluable : Evaluable env p (.identifier s t))
    {var : Variable} {answer : Bool × Option Expr} (data : env.getData s = some var)
    (compared : areAllEqualsInList env p var.expr = .ok answer) :
    ∃ var', (env.subst σ).getData s = some var' ∧
      ∃ answer', areAllEqualsInList (env.subst σ) none var'.expr = .ok answer' := by
  cases expr : var.expr with
  | none =>
      refine ⟨⟨none⟩, ?_, _, rfl⟩
      change (env.getData s).map _ = _
      rw [data, Option.map_some, expr]
      rfl
  | some init =>
      have given : env.initialiser s = some init := by
        rw [Env.initialiser, data]
        exact expr
      rw [expr] at compared
      obtain ⟨init', given', compared'⟩ := areAllEqualsInList_subst solved evaluable given compared
      obtain ⟨var', data', expr'⟩ := getData_of_initialiser given'
      rw [← expr'] at compared'
      exact ⟨var', data', compared'⟩

/-- Only a parameter changes the kind of its type. -/
theorem looksOneDim_of_free {a : Expr} (solved : Solves σ p)
    (free : ∀ s, a.getSymbol? = some s → mapped? p s = none) :
    looksOneDim (a.subst σ).type = looksOneDim a.type := by
  have type : (a.subst σ).type = a.type.subst σ := Expr.type_subst fun s t symbol => by
    subst symbol
    exact solved.unbound (free s rfl)
  rw [type, looksOneDim_subst]

/-- The entries of a declared array are compared with the same result. -/
theorem answers_declared {a : Expr} {answer : Bool} {minsz maxsz : Int}
    (solved : Solves σ p) (evaluable : Evaluable env p a) (keeps : KeepsLayout env σ p a)
    (free : ∀ s, a.getSymbol? = some s → mapped? p s = none)
    (decided : isOneDimArrayVariable env p a = .ok (answer, minsz, maxsz)) :
    Answers (env.subst σ) none (a.subst σ) answer := by
  have decision := (isOneDimArrayVariable_eq_ok decided).2.2
  unfold Answers
  rw [looksOneDim_of_free solved free]
  cases known : looksOneDim a.type with
  | false =>
      rw [known] at decision
      exact decision
  | true =>
      obtain ⟨s, symbol, compared⟩ := isOneDimArrayVariable_symbol known decided
      rw [known, symbol, Option.elim_some, Bool.true_and,
        ← keeps.declared s known symbol (free s symbol)] at decision
      rw [if_pos rfl]
      refine ⟨s, getSymbol?_subst symbol (solved.unbound (free s symbol)), fun data' => ?_,
        fun var' data' => ?_⟩
      · rw [decision, Env.initialiser, data']
        rfl
      · cases data : env.getData s with
        | none =>
            have gone : (env.subst σ).getData s = none := by
              change (env.getData s).map _ = none
              rw [data, Option.map_none]
            cases gone.symm.trans data'
        | some var =>
            obtain ⟨equal, compared⟩ := compared var data
            obtain ⟨t', met⟩ := @meets_symbol env p a s symbol
            obtain ⟨var'', data'', ⟨equal', val⟩, compared'⟩ :=
              comparedData_subst solved (evaluable.within met) data compared
            cases data''.symm.trans data'
            rw [decision, Env.initialiser, data', Option.bind_some, ← areAllEqualsInList_eq_ok compared']
            exact ⟨val, compared'⟩

/-- What a parameter is taken for is decided by its type. -/
theorem answer_of_parameter {a argument : Expr} {answer : Bool} {minsz maxsz : Int}
    (evaluable : Evaluable env p a) (symbol : a.getSymbol? = some s) (bound : mapped? p s = some argument)
    (decided : isOneDimArrayVariable env p a = .ok (answer, minsz, maxsz)) :
    answer = looksOneDim a.type := by
  rw [(isOneDimArrayVariable_eq_ok decided).2.2, symbol, Option.elim_some, Env.initialiser,
    evaluable.parameters s argument bound]
  exact Bool.and_true _

/-- The decision for a use is the one after the substitution. -/
theorem isOneDimArrayVariable_subst {a : Expr} {answer : Bool} {minsz maxsz : Int}
    (solved : Solves σ p) (evaluable : Evaluable env p a) (fit : ArgumentsFit env p a)
    (stands : StandsFor p a r) (keeps : KeepsLayout env σ p a)
    (decided : isOneDimArrayVariable env p a = .ok (answer, minsz, maxsz)) :
    isOneDimArrayVariable (env.subst σ) none (a.subst σ) = .ok (answer, minsz, maxsz) := by
  have bounded := indexBounds_subst solved evaluable fit stands (isOneDimArrayVariable_eq_ok decided).2.1
  have array : (a.subst σ).type.isArray = true := by
    obtain ⟨size, sized, _⟩ := Res.bind_eq_ok.mp bounded
    exact isArray_of_getArraySize? (orAssert_eq_ok.mp sized)
  have answers : Answers (env.subst σ) none (a.subst σ) answer := by
    by_cases free : ∀ s, a.getSymbol? = some s → mapped? p s = none
    · exact answers_declared solved evaluable keeps free decided
    · obtain ⟨s, isBound⟩ := not_forall.mp free
      obtain ⟨symbol, isBound⟩ := Classical.not_imp.mp isBound
      obtain ⟨argument, bound⟩ := Option.ne_none_iff_exists'.mp isBound
      rw [answer_of_parameter evaluable symbol bound decided]
      exact keeps.parameter s argument symbol bound
  exact answers.decides array bounded

/-- A decision that is the same after the substitution has kept the layout. -/
theorem keepsLayout_of_decided {a : Expr} {answer : Bool} {minsz maxsz minsz' maxsz' : Int}
    (solved : Solves σ p) (evaluable : Evaluable env p a)
    (decided : isOneDimArrayVariable env p a = .ok (answer, minsz, maxsz))
    (decided' : isOneDimArrayVariable (env.subst σ) none (a.subst σ) = .ok (answer, minsz', maxsz')) :
    KeepsLayout env σ p a := by
  constructor
  · intro s known symbol unbound
    have decision := (isOneDimArrayVariable_eq_ok decided).2.2
    have decision' := (isOneDimArrayVariable_eq_ok decided').2.2
    have looks := looksOneDim_of_free (a := a) solved fun x root => by
      cases symbol.symm.trans root
      exact unbound
    rw [known, symbol] at decision
    rw [looks, known, getSymbol?_subst symbol (solved.unbound unbound)] at decision'
    exact decision'.symm.trans decision
  · intro s argument symbol bound
    rw [← answer_of_parameter evaluable symbol bound decided]
    exact answers_of_decided decided'

end

end Utot
