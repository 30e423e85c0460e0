import Utot.Run.Cells
import Utot.Run.SideBySide

/-!
# Names of types

A declaration and the one with all names of types replaced by their definitions
print the same lines and fail alike, unless the cells of a flattened array carry
a name that stands for an array, a clock or a channel: the recursion over the
cells does not look through names before it has decided what a cell is.
-/

namespace Utot

open Utap Library Tchecker

/-! ## Replacing names -/

/-- A type without the names in it. -/
def eraseLabels : Ty → Ty
  | .label _ t => eraseLabels t
  | .prim k => .prim k
  | .pre k t => .pre k (eraseLabels t)
  | .ref t => .ref (eraseLabels t)
  | .range t lower upper => .range (eraseLabels t) lower upper
  | .array sub size => .array (eraseLabels sub) (eraseLabels size)
  | .record labels fields => .record labels fields

/-- The same symbols with every name of a type replaced. -/
def eraseNames (env : Env) : Env where
  symbols s := { env.symbols s with type := eraseLabels (env.symbols s).type }
  verboseLevel := env.verboseLevel
  stack := env.stack

/-- Types of indices: ranges of integers or scalars, under names and `const`. -/
inductive IndexType : Ty → Prop where
  | range {base : PrimKind} {lower upper : Expr} : IndexType (.range (.prim base) lower upper)
  | const {t : Ty} (inside : IndexType t) : IndexType (.pre .constant t)
  | label {name : String} {t : Ty} (inside : IndexType t) : IndexType (.label name t)

/-- Types built from integers, Booleans, clocks and channels with arrays and names;
an `int` without a range exists only as a constant. -/
inductive Nameable : Ty → Prop where
  | bool : Nameable (.prim .bool)
  | bounded {base : PrimKind} {lower upper : Expr} : Nameable (.range (.prim base) lower upper)
  | const {t : Ty} : Nameable (.pre .constant t)
  | clock : Nameable (.prim .clock)
  | channel : Nameable (.prim .channel)
  | broadcast {t : Ty} : Nameable (.pre .broadcast t)
  | urgent {t : Ty} : Nameable (.pre .urgent t)
  | label {name : String} {t : Ty} (inside : Nameable t) : Nameable (.label name t)
  | array {sub size : Ty} (inside : Nameable sub) (index : IndexType size) : Nameable (.array sub size)

/-- A name that does not stand for an integer variable. -/
def hidesKind (t : Ty) : Bool := t.kind == .label && !isVariableKind (stripLabels t).kind

/-- The recursion over the cells reaches such a name on its way to the first cell. -/
abbrev Hidden (env : Env) (p : Option Instance) (t : Ty) (init : Option Expr) : Prop :=
  Reached env p (fun t => hidesKind t = true) t init

/-- Two states with the same lines. -/
def SameLines (s s' : TrState) : Prop := s.lines = s'.lines

/-- The programs print the same lines and fail alike. -/
abbrev SameOutcome (m m' : Tr Unit) : Prop := Alike SameLines m m'

section

variable {env : Env} {p : Option Instance} {t : Ty}

/-! ## What does not depend on names -/

theorem isConstant_eraseLabels : ∀ t : Ty, (eraseLabels t).isConstant = t.isConstant
  | .label _ t => isConstant_eraseLabels t
  | .prim _ => rfl
  | .pre k t => by
      rw [eraseLabels, Ty.isConstant, isConstant_eraseLabels t, Ty.isConstant]
  | .ref t => isConstant_eraseLabels t
  | .range t _ _ => isConstant_eraseLabels t
  | .array sub _ => isConstant_eraseLabels sub
  | .record _ _ => rfl

theorem isArray_eraseLabels : ∀ t : Ty, (eraseLabels t).isArray = t.isArray
  | .label _ t => isArray_eraseLabels t
  | .prim _ => rfl
  | .pre _ t => isArray_eraseLabels t
  | .ref t => isArray_eraseLabels t
  | .range t _ _ => isArray_eraseLabels t
  | .array _ _ => rfl
  | .record _ _ => rfl

theorem getType_eraseNames (s : Symbol) : (eraseNames env).getType s = eraseLabels (env.getType s) := rfl

theorem constant_eraseNames (s : Symbol) :
    ((eraseNames env).getType s).isConstant = (env.getType s).isConstant :=
  isConstant_eraseLabels _

theorem evalAux_eraseNames (depth : Nat) : evalAux (eraseNames env) depth p = evalAux env depth p := by
  induction depth with
  | zero => rfl
  | succ depth ih =>
      funext e
      cases e with
      | binary k l r t =>
          cases k
          case array =>
            simp only [evalAux, ih]
            rfl
          all_goals simp only [evalAux, ih]
      | unary k x t => cases k <;> simp only [evalAux, ih]
      | nary k es t => cases k <;> simp only [evalAux, ih]
      | identifier s t => simp only [evalAux, ih, constant_eraseNames]; rfl
      | _ => simp only [evalAux, ih]

theorem evalIntegerConstant_eraseNames :
    evalIntegerConstant (eraseNames env) p = evalIntegerConstant env p :=
  evalAux_eraseNames env.stack

theorem computeRangeBounds_eraseNames (t : Ty) :
    computeRangeBounds (eraseNames env) p t = computeRangeBounds env p t := by
  unfold computeRangeBounds
  rw [evalIntegerConstant_eraseNames]

/-- The bounds of an index are the same behind a name. -/
theorem indexBounds_eraseLabels {size : Ty} (index : IndexType size) :
    computeRangeBounds (eraseNames env) p (eraseLabels size) = computeRangeBounds env p size := by
  rw [computeRangeBounds_eraseNames]
  have stripped : stripLabelsAndConst (eraseLabels size) = stripLabelsAndConst size := by
    induction index with
    | range => rfl
    | const _ ih => exact ih
    | label _ ih => exact ih
  unfold computeRangeBounds computeRangeBoundsWith
  rw [stripped]

theorem stripArray_eraseLabels : ∀ t : Ty, (eraseLabels t).stripArray = eraseLabels t.stripArray
  | .label _ t => stripArray_eraseLabels t
  | .prim _ => rfl
  | .pre _ t => stripArray_eraseLabels t
  | .ref t => stripArray_eraseLabels t
  | .range t _ _ => stripArray_eraseLabels t
  | .array sub _ => stripArray_eraseLabels sub
  | .record _ _ => rfl

theorem isClock_eraseLabels : ∀ t : Ty, (eraseLabels t).isClock = t.isClock
  | .label _ t => by
      rw [eraseLabels, isClock_eraseLabels t]
      rfl
  | .prim _ => rfl
  | .pre k t => by
      have inside := isClock_eraseLabels t
      unfold Ty.isClock at inside ⊢
      rw [eraseLabels, Ty.is, Ty.is, inside]
  | .ref t => isClock_eraseLabels t
  | .range t _ _ => isClock_eraseLabels t
  | .array _ _ => rfl
  | .record _ _ => rfl

theorem kind_eraseLabels (plain : t.kind ≠ .label) : (eraseLabels t).kind = t.kind := by
  cases t with
  | label name t => exact absurd rfl plain
  | _ => rfl

/-- The type of the cells of an array of TChecker has no name in it. -/
theorem cell_eraseLabels (named : Nameable t) :
    isCellKind (stripRefsAndLabels (eraseLabels t)).kind = isCellKind (stripRefsAndLabels t).kind ∧
      (isCellKind (stripRefsAndLabels t).kind = true →
        stripRefsAndLabels (eraseLabels t) = stripRefsAndLabels t) := by
  induction named with
  | label _ ih => exact ih
  | const => exact ⟨rfl, fun kind => by cases kind⟩
  | broadcast => exact ⟨rfl, fun kind => by cases kind⟩
  | urgent => exact ⟨rfl, fun kind => by cases kind⟩
  | array => exact ⟨rfl, fun kind => by cases kind⟩
  | _ => exact ⟨rfl, fun _ => rfl⟩

theorem isOneDimArrayType_eraseLabels {sub size : Ty} (named : Nameable sub) (index : IndexType size) :
    isOneDimArrayType (eraseNames env) p (eraseLabels (.array sub size)) =
      isOneDimArrayType env p (.array sub size) := by
  obtain ⟨kinds, same⟩ := cell_eraseLabels named
  change (computeRangeBounds (eraseNames env) p (eraseLabels size) >>= fun bounds =>
      if (eraseLabels sub).isArray then .ok (bounds.1, bounds.2, none) else
        .ok (bounds.1, bounds.2, if isCellKind (stripRefsAndLabels (eraseLabels sub)).kind then
          some (stripRefsAndLabels (eraseLabels sub)) else none) : Res (Int × Int × Option Ty)) =
    (computeRangeBounds env p size >>= fun bounds =>
      if sub.isArray then .ok (bounds.1, bounds.2, none) else
        .ok (bounds.1, bounds.2, if isCellKind (stripRefsAndLabels sub).kind then
          some (stripRefsAndLabels sub) else none) : Res (Int × Int × Option Ty))
  rw [indexBounds_eraseLabels index, isArray_eraseLabels, kinds]
  cases kind : isCellKind (stripRefsAndLabels sub).kind with
  | false => rfl
  | true => rw [same kind]

theorem areAllEqualsInList_eraseNames (init : Option Expr) :
    areAllEqualsInList (eraseNames env) p init = areAllEqualsInList env p init := by
  have named : ∀ e, namedInitialiser (eraseNames env) e = namedInitialiser env e := fun e => rfl
  unfold areAllEqualsInList
  simp only [named, computeRangeBounds_eraseNames]

theorem oneDimDeclaration_eraseLabels {sub size : Ty} (named : Nameable sub) (index : IndexType size)
    (init : Option Expr) :
    oneDimDeclaration (eraseNames env) p (eraseLabels (.array sub size)) init =
      oneDimDeclaration env p (.array sub size) init := by
  unfold oneDimDeclaration
  rw [isOneDimArrayType_eraseLabels named index, areAllEqualsInList_eraseNames]

/-! ## Programs that print the same -/

theorem alike_commentln (args args' : List Arg) :
    Alike SameLines (commentln args) (commentln args') := by
  refine Alike.update fun s s' same => ?_
  unfold SameLines
  rw [TrState.lines_comment, TrState.lines_comment]
  exact same

theorem sides_sameLines : SideBySide SameLines where
  write same o := by
    unfold SameLines TrState.lines linesOf at same ⊢
    rw [TrState.write_trace, TrState.write_trace, List.filterMap_append, List.filterMap_append, same]
  left same level args := by
    unfold SameLines
    rw [TrState.lines_message]
    exact same
  right same level args := by
    unfold SameLines
    rw [TrState.lines_message]
    exact same

theorem stripLabels_plain (plain : t.kind ≠ .label) : stripLabels t = t := by
  cases t with
  | label name t => exact absurd rfl plain
  | _ => rfl

/-- Below its names the erased type has none either. -/
theorem stripLabels_eraseLabels (plain : t.kind ≠ .label) :
    stripLabels (eraseLabels t) = eraseLabels t := by
  apply stripLabels_plain
  rw [kind_eraseLabels plain]
  exact plain

theorem variableBounds_eraseLabels (named : Nameable t) (plain : t.kind ≠ .label) :
    variableBounds (eraseNames env) p (eraseLabels t) = variableBounds env p t := by
  cases named with
  | label => exact absurd rfl plain
  | bounded =>
      unfold variableBounds
      rw [computeRangeBounds_eraseNames]
      rfl
  | _ => rfl

theorem named_stripLabels (named : Nameable t) :
    Nameable (stripLabels t) ∧ (stripLabels t).kind ≠ .label ∧
      eraseLabels (stripLabels t) = eraseLabels t := by
  induction named with
  | label _ ih => exact ih
  | bool => exact ⟨.bool, Kind.noConfusion, rfl⟩
  | bounded => exact ⟨.bounded, Kind.noConfusion, rfl⟩
  | const => exact ⟨.const, Kind.noConfusion, rfl⟩
  | clock => exact ⟨.clock, Kind.noConfusion, rfl⟩
  | channel => exact ⟨.channel, Kind.noConfusion, rfl⟩
  | broadcast => exact ⟨.broadcast, Kind.noConfusion, rfl⟩
  | urgent => exact ⟨.urgent, Kind.noConfusion, rfl⟩
  | array inside index => exact ⟨.array inside index, Kind.noConfusion, rfl⟩

/-- The variable printer looks through names itself. -/
theorem alike_variable (named : Nameable t) (vname : String) (init : Option Expr) :
    Alike SameLines (sOutputIntegerVariable (eraseNames env) p vname (eraseLabels t) init)
      (sOutputIntegerVariable env p vname t init) := by
  obtain ⟨named', plain, erased⟩ := named_stripLabels named
  have once := stripLabels_eraseLabels plain
  have bounds : variableBounds (eraseNames env) p (eraseLabels (stripLabels t)) =
      variableBounds env p (stripLabels t) := variableBounds_eraseLabels named' plain
  rw [erased] at once bounds
  have kind := kind_eraseLabels plain
  rw [erased] at kind
  refine alike_integerVariable sides_sameLines evalIntegerConstant_eraseNames vname init ?_ ?_
  · rw [once, kind]
  · rw [once, bounds]

theorem alike_declareCell (named : Nameable t) (clear : hidesKind t = false) (name : String)
    (init : Option Expr) :
    Alike SameLines (declareCell (eraseNames env) p name (eraseLabels t) init)
      (declareCell env p name t init) := by
  cases named with
  | channel => exact alike_commentln _ _
  | broadcast => exact alike_commentln _ _
  | urgent => exact alike_commentln _ _
  | clock => exact alike_line sides_sameLines _
  | bool => exact alike_variable .bool name init
  | bounded => exact alike_variable .bounded name init
  | const => exact alike_variable .const name init
  | array inside index => exact alike_variable (.array inside index) name init
  | @label n t inside =>
      obtain ⟨_, plain, erased⟩ := named_stripLabels inside
      have kind := kind_eraseLabels plain
      rw [erased] at kind
      have integer : isVariableKind (eraseLabels t).kind = true := by
        change (!isVariableKind (stripLabels t).kind) = false at clear
        rw [Bool.not_eq_false'] at clear
        rw [kind, clear]
      have cell : declareCell (eraseNames env) p name (eraseLabels t) init =
          sOutputIntegerVariable (eraseNames env) p name (eraseLabels t) init := by
        unfold declareCell
        split
        all_goals first | rfl | (rename_i other; rw [other] at integer; cases integer)
      change Alike SameLines (declareCell (eraseNames env) p name (eraseLabels t) init)
        (sOutputIntegerVariable env p name (.label n t) init)
      rw [cell]
      exact alike_variable (.label inside) name init

/-! ## The recursion over the cells -/

/-- A cell with a hidden kind is never printed. -/
theorem no_lines_of_hidesKind (hides : hidesKind t = true) {name : String} {init : Option Expr}
    {S : List Int} {ls : List Line} : ¬ CellLines env p name t init S ls := by
  intro printed
  cases t with
  | label n t =>
      cases printed with
      | channel kind => rcases kind with kind | kind | kind <;> cases kind
      | clock kind => cases kind
      | integer line =>
          have kind := kind_of_variableLine line
          unfold hidesKind at hides
          rw [kind] at hides
          cases hides
  | _ => cases hides

/-- Without a hidden kind on the way to the first cell the rows are printed alike. -/
theorem alike_arrayElements (named : Nameable t) {init : Option Expr}
    (clear : ¬ Hidden env p t init) (name : String) (S : List Int) :
    Alike SameLines (sEnumerateArrayElementsDecl (eraseNames env) p name (eraseLabels t) init S)
      (sEnumerateArrayElementsDecl env p name t init S) := by
  induction named generalizing init S with
  | @array sub size inside index ih =>
      unfold eraseLabels sEnumerateArrayElementsDecl
      rw [indexBounds_eraseLabels index]
      refine Alike.liftBind fun bounds computed => Alike.liftBind fun count counted => ?_
      obtain ⟨min, max⟩ := bounds
      obtain ⟨_, _, _, _, _, nonempty⟩ := bounds_of_computeRangeBounds computed
      have loop : (∀ e, init = some e → count ≤ e.getSize) → Alike SameLines
          (forRange min max fun i => do
            let cell ← fromExcept (initialCell init (i - min))
            sEnumerateArrayElementsDecl (eraseNames env) p name (eraseLabels sub) cell (i :: S))
          (forRange min max fun i => do
            let cell ← fromExcept (initialCell init (i - min))
            sEnumerateArrayElementsDecl env p name sub cell (i :: S)) := by
        intro enough
        by_cases hides : Somewhere (fun t => hidesKind t = true) sub
        · obtain ⟨rest, first⟩ := intRange_eq_cons nonempty
          obtain ⟨cell, found⟩ := initialCell_zero (by rw [checkedInt_eq_ok counted]; omega) enough
          have row : ¬ Hidden env p sub cell := fun hidden => clear (.row computed counted enough found hidden)
          have zero : initialCell init (min - min) = .ok cell := by
            rw [Int.sub_self]
            exact found
          have stuck : ∀ s a s', exec (fromExcept (initialCell init (min - min)) >>= fun cell =>
              sEnumerateArrayElementsDecl env p name sub cell (min :: S)) s ≠ (.ok a, s') := by
            intro s a s' run
            rw [zero] at run
            exact stuck_of_somewhere (fun _ _ _ _ hides _ => no_lines_of_hidesKind hides) hides rfl
              (min :: S) s a s' run
          have start : Alike SameLines
              (fromExcept (initialCell init (min - min)) >>= fun cell =>
                sEnumerateArrayElementsDecl (eraseNames env) p name (eraseLabels sub) cell (min :: S))
              (fromExcept (initialCell init (min - min)) >>= fun cell =>
                sEnumerateArrayElementsDecl env p name sub cell (min :: S)) := by
            rw [zero]
            exact ih row (min :: S)
          unfold forRange
          rw [first]
          exact Alike.bind (Alike.forM_stuck start stuck) fun _ =>
            Alike.branch (fun _ => Alike.lift _) fun _ => Alike.ret _
        · exact alike_forRange fun i _ => Alike.liftBind fun cell _ =>
            ih (fun hidden => hides hidden.somewhere) _
      cases init with
      | none => exact loop fun _ given => by cases given
      | some e =>
          dsimp only
          split
          · exact Alike.liftBind fun _ failed => by cases failed
          · rename_i enough
            exact loop fun e' given => by
              cases given
              exact Int.not_lt.mp enough
  | @label n t inside =>
      have plain : hidesKind (.label n t) = false :=
        Bool.eq_false_iff.mpr fun hides => clear (.here hides)
      obtain ⟨_, noLabel, erased⟩ := named_stripLabels inside
      have kind := kind_eraseLabels noLabel
      rw [erased] at kind
      have single : (eraseLabels t).kind ≠ .array := by
        intro array
        change (!isVariableKind (stripLabels t).kind) = false at plain
        rw [← kind, array] at plain
        cases plain
      change Alike SameLines (sEnumerateArrayElementsDecl (eraseNames env) p name (eraseLabels t) init S)
        (declareCell env p (cellName name S) (.label n t) init)
      rw [arrayElements_eq_declareCell single]
      exact alike_declareCell (.label inside) plain _ _
  | _ => exact alike_declareCell (by constructor) rfl _ _

/-! ## Hidden kinds -/

/-- The errors of a declaration whose names have been replaced. -/
def OtherThanKind (f : Fault) : Prop := f ≠ .assertion kindAssertion

theorem admits_otherThanKind : Admits OtherThanKind where
  thrown args same := by cases same
  undefined what same := by cases same
  overflow same := by cases same
  asserted what other same := by
    cases same
    exact other rfl

/-- The kind of a cell without names is never asserted in vain. -/
theorem throws_erased (named : Nameable t) (name : String) (init : Option Expr) (S : List Int) :
    Throws OtherThanKind
      (sEnumerateArrayElementsDecl (eraseNames env) p name (eraseLabels t) init S) := by
  induction named generalizing init S with
  | label _ ih => exact ih init S
  | @array sub size _ _ ih =>
      unfold eraseLabels sEnumerateArrayElementsDecl
      refine Throws.bind (Throws.lift (admits_otherThanKind.bounds _ p _)) fun bounds =>
        Throws.bind (Throws.lift (admits_otherThanKind.checkedInt _)) fun count => ?_
      have loop : Throws OtherThanKind (forRange bounds.1 bounds.2 fun i => do
          let cell ← fromExcept (initialCell init (i - bounds.1))
          sEnumerateArrayElementsDecl (eraseNames env) p name (eraseLabels sub) cell (i :: S)) :=
        throws_forRange admits_otherThanKind fun i =>
          Throws.bind (Throws.lift (fails_initialCell admits_otherThanKind _ _)) fun cell => ih cell _
      cases init with
      | none => exact loop
      | some e =>
          dsimp only
          split
          · exact Throws.bind (Throws.lift (admits_otherThanKind.trErr _)) fun _ => loop
          · exact loop
  | channel => exact throws_write _
  | broadcast => exact throws_write _
  | urgent => exact throws_write _
  | clock => exact throws_write _
  | bool => exact throws_integerVariable admits_otherThanKind _ p _ (.inl rfl) init
  | bounded => exact throws_integerVariable admits_otherThanKind _ p _ (.inl rfl) init
  | const => exact throws_integerVariable admits_otherThanKind _ p _ (.inl rfl) init

/-- On a hidden kind the variable printer fails. -/
theorem asserts_of_hidden {init : Option Expr} (hidden : Hidden env p t init) (name : String)
    (S : List Int) (s : TrState) :
    (exec (sEnumerateArrayElementsDecl env p name t init S) s).1 =
      .error (.assertion kindAssertion) := by
  have fails : ∀ t init S s, hidesKind t = true →
      ∃ f, (exec (sEnumerateArrayElementsDecl env p name t init S) s).1 = .error f ∧
        f = .assertion kindAssertion := by
    intro t init S s hides
    refine ⟨_, ?_, rfl⟩
    cases t with
    | label n t =>
        change (exec (sOutputIntegerVariable env p (cellName name S) (.label n t) init) s).1 = _
        have kind : isVariableKind (stripLabels t).kind = false := by
          change (!isVariableKind (stripLabels t).kind) = true at hides
          rwa [Bool.not_eq_true'] at hides
        unfold isVariableKind at kind
        unfold sOutputIntegerVariable stripLabels assertTr assertThat
        simp only [kind]
        rfl
    | _ => cases hides
  obtain ⟨f, failed, same⟩ := fails_of_reached (fun t init S s hides _ => fails t init S s hides)
    hidden rfl S s
  rw [failed, same]

/-! ## Declarations -/

theorem alike_declareArray {sub size : Ty} (named : Nameable sub) (index : IndexType size)
    {init : Option Expr} (clear : oneDimDeclaration env p (.array sub size) init = .ok none →
      ¬ Hidden env p (.array sub size) init) (vname : String) :
    Alike SameLines (declareArray (eraseNames env) p vname (eraseLabels (.array sub size)) init)
      (declareArray env p vname (.array sub size) init) := by
  unfold declareArray
  rw [oneDimDeclaration_eraseLabels named index, stripArray_eraseLabels, isClock_eraseLabels]
  refine Alike.liftBind fun answer decided => ?_
  cases answer with
  | none => exact alike_arrayElements (.array named index) (clear decided) vname []
  | some whole =>
      obtain ⟨min, max, cell, val⟩ := whole
      refine Alike.liftBind fun count _ => Alike.branch (fun _ => ?_) fun _ =>
        alike_oneDimArray sides_sameLines evalIntegerConstant_eraseNames _ _ _ _
      exact Alike.bind (alike_commentln _ _) fun _ => alike_line sides_sameLines _

/-- The declaration is an array that is flattened, and the recursion over its cells
reaches a name that stands for an array, a clock or a channel. -/
def HiddenIn (env : Env) (p : Option Instance) (s : Symbol) : Prop :=
  (stripLabels (env.getType s)).kind = .array ∧
    oneDimDeclaration env p (stripLabels (env.getType s)) (env.initialiser s) = .ok none ∧
      Hidden env p (stripLabels (env.getType s)) (env.initialiser s)

theorem alike_declareVariable {s : Symbol} (named : Nameable (env.getType s)) (clear : ¬ HiddenIn env p s)
    (ctx : ContextPrefix) :
    SameOutcome (declareVariable (eraseNames env) p ctx s) (declareVariable env p ctx s) := by
  obtain ⟨named', plain, erased⟩ := named_stripLabels named
  have once : stripLabels (eraseLabels (env.getType s)) = eraseLabels (stripLabels (env.getType s)) := by
    rw [← erased]
    exact stripLabels_eraseLabels plain
  unfold HiddenIn at clear
  unfold declareVariable
  rw [getType_eraseNames, once]
  generalize stripLabels (env.getType s) = t at named' plain clear
  refine Alike.bind (alike_commentln _ _) fun _ => ?_
  cases named' with
  | label => exact absurd rfl plain
  | bool => exact alike_variable .bool _ _
  | bounded => exact alike_variable .bounded _ _
  | const => exact alike_variable .const _ _
  | clock => exact alike_line sides_sameLines _
  | channel => exact alike_commentln _ _
  | broadcast => exact alike_commentln _ _
  | urgent => exact alike_commentln _ _
  | array inside index =>
      exact alike_declareArray inside index (fun split hidden => clear ⟨rfl, split, hidden⟩) _

theorem differ_of_hidden {s : Symbol} (named : Nameable (env.getType s)) (hidden : HiddenIn env p s)
    (ctx : ContextPrefix) :
    ¬ SameOutcome (declareVariable (eraseNames env) p ctx s) (declareVariable env p ctx s) := by
  intro same
  obtain ⟨outcome, _⟩ := same .initial .initial rfl
  obtain ⟨named', plain, erased⟩ := named_stripLabels named
  obtain ⟨kind, split, hidden⟩ := hidden
  have once : stripLabels (eraseLabels (env.getType s)) = eraseLabels (stripLabels (env.getType s)) := by
    rw [← erased]
    exact stripLabels_eraseLabels plain
  unfold declareVariable at outcome
  rw [getType_eraseNames, once] at outcome
  generalize stripLabels (env.getType s) = t at named' plain kind split hidden outcome
  cases named' with
  | @array sub size inside index =>
      have fails : (exec (declareArray env p (addPrefix ctx (env.getName s)) (.array sub size)
          (env.initialiser s)) (TrState.initial.write (.comment [.text (env.getName s), .text ":",
            .type (.array sub size)]))).1 = .error (.assertion kindAssertion) := by
        unfold declareArray
        rw [split]
        exact asserts_of_hidden hidden _ _ _
      have other : Throws OtherThanKind (declareArray (eraseNames env) p (addPrefix ctx (env.getName s))
          (eraseLabels (.array sub size)) (env.initialiser s)) := by
        unfold declareArray
        rw [oneDimDeclaration_eraseLabels inside index, split]
        exact throws_erased (.array inside index) _ _ _
      exact other _ _ (outcome.trans fails) rfl
  | _ => cases kind

/-- For types built from integers, Booleans, clocks and channels: a declaration prints
the same lines as the one with all names of types replaced, or fails like it, exactly
if no cell of a flattened array hides its kind behind a name; and so do the
declarations of a list. -/
theorem names_transparent (ctx : ContextPrefix) (decl : Declarations)
    (named : ∀ s ∈ visitedVariables p decl, Nameable (env.getType s)) :
    (∀ s ∈ visitedVariables p decl,
      SameOutcome (declareVariable (eraseNames env) p ctx s) (declareVariable env p ctx s) ↔
        ¬ HiddenIn env p s) ∧
    ((∀ s ∈ visitedVariables p decl, ¬ HiddenIn env p s) →
      SameOutcome (translateDeclarations (eraseNames env) p ctx decl)
        (translateDeclarations env p ctx decl)) := by
  constructor
  · intro s listed
    constructor
    · intro same hidden
      exact differ_of_hidden (named s listed) hidden ctx same
    · intro clear
      exact alike_declareVariable (named s listed) clear ctx
  · intro clear
    exact Alike.forM fun s listed => alike_declareVariable (named s listed) (clear s listed) ctx

end

/-! ## An array of named rows -/

/-- `typedef int[0,1] row[2]; row m[2];` behind the variable `t(0)`. -/
def rowsEnv : Env :=
  envOfSymbols [⟨"t(0)", .prim .clock, false, some ⟨none⟩⟩,
    ⟨"m", .array (.label "row" (.array bit bit)) bit, false, some ⟨none⟩⟩]
where
  bit : Ty := .range (.prim .int) (.constant 0 (.prim .int)) (.constant 1 (.prim .int))

def rowsDeclarations : Declarations := ⟨[0, 1], [], []⟩

theorem named_rows : ∀ s ∈ visitedVariables none rowsDeclarations, Nameable (rowsEnv.getType s) := by
  intro s listed
  cases List.mem_singleton.mp listed
  exact .array (.label (.array .bounded .range)) .range

theorem names_transparent_rows :
    (∀ s ∈ visitedVariables none rowsDeclarations,
      SameOutcome (declareVariable (eraseNames rowsEnv) none [] s) (declareVariable rowsEnv none [] s) ↔
        ¬ HiddenIn rowsEnv none s) ∧
    ((∀ s ∈ visitedVariables none rowsDeclarations, ¬ HiddenIn rowsEnv none s) →
      SameOutcome (translateDeclarations (eraseNames rowsEnv) none [] rowsDeclarations)
        (translateDeclarations rowsEnv none [] rowsDeclarations)) :=
  names_transparent [] rowsDeclarations named_rows

/-- With the name of the rows the translator fails an assertion, without it the cells
are printed. -/
theorem named_rows_abort :
    (exec (translateDeclarations rowsEnv none [] rowsDeclarations) .initial).1 =
      .error (.assertion "kind == BOOL || kind == RANGE || kind == CONSTANT") ∧
    (exec (translateDeclarations (eraseNames rowsEnv) none [] rowsDeclarations) .initial).1 = .ok () ∧
    (exec (translateDeclarations (eraseNames rowsEnv) none [] rowsDeclarations) .initial).2.lines =
      [.intvar 0 1 0 "m_0_0" 1, .intvar 0 1 0 "m_0_1" 1, .intvar 0 1 0 "m_1_0" 1,
        .intvar 0 1 0 "m_1_1" 1] ∧
    ¬ SameOutcome (translateDeclarations (eraseNames rowsEnv) none [] rowsDeclarations)
      (translateDeclarations rowsEnv none [] rowsDeclarations) := by
  have aborts : (exec (translateDeclarations rowsEnv none [] rowsDeclarations) .initial).1 =
      .error (.assertion "kind == BOOL || kind == RANGE || kind == CONSTANT") := rfl
  have returns : (exec (translateDeclarations (eraseNames rowsEnv) none [] rowsDeclarations)
      .initial).1 = .ok () := rfl
  refine ⟨aborts, returns, rfl, fun same => ?_⟩
  obtain ⟨outcome, _⟩ := same .initial .initial rfl
  rw [aborts, returns] at outcome
  cases outcome

end Utot
