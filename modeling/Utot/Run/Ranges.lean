import Utot.Library.Counter
import Utot.Run.Aborts

/-!
# Loops over the values of a range

The select variables, the open parameters and the indices of an array are
enumerated by one kind of loop, and the declaration pass counts the elements of
an index type in an `int`.  Both are exact up to the limits of `int`: the loop
needs a value behind the last one, the count has to fit.
-/

namespace Utot

open Utap Library

variable {min max : Int}

/-! ## The loop -/

/-- The loop over an interval counts an `int` up to its upper end. -/
theorem forRange_eq_countUp {body : Int → Tr Unit} (upper : max ≤ intMax) :
    forRange min max body = countUp intMax max (.undefined "signed overflow") body min :=
  (countUp_eq upper min).symm

/-- The loop runs its body for `min`, `min + 1`, …, `max`, once each and in this
order, and ends. -/
def VisitsEachOnce (min max : Int) (body : Int → Tr Unit) (loop : Tr Unit) : Prop :=
  ∃ values : List Int, values.Pairwise (· < ·) ∧ (∀ i, i ∈ values ↔ min ≤ i ∧ i ≤ max) ∧
    loop = values.forM body

theorem visits_forRange {body : Int → Tr Unit} (below : max < intMax) :
    VisitsEachOnce min max body (forRange min max body) := by
  refine ⟨intRange min max, pairwise_intRange min max, fun i => mem_intRange, ?_⟩
  rw [forRange_eq_countUp (Int.le_of_lt below), countUp_below below]
  rfl

/-- Rounds that all return make a loop that returns. -/
theorem VisitsEachOnce.returns {body : Int → Tr Unit} {loop : Tr Unit}
    (visits : VisitsEachOnce min max body loop) (rounds : ∀ i, Outcome (body i) (.ok ())) :
    Outcome loop (.ok ()) := by
  obtain ⟨values, _, _, same⟩ := visits
  have every : values.forM (fun _ => (.ok () : Res Unit)) = .ok () := forM_eq_ok.mpr fun _ _ => rfl
  rw [same, ← every]
  exact Outcome.forM rounds

/-- At the greatest `int` the loop does not end, whatever its body does. -/
theorem below_of_visits {body : Int → Tr Unit} (order : min ≤ max) (upper : max ≤ intMax)
    (visits : VisitsEachOnce min max body (forRange min max body))
    (rounds : ∀ i, Outcome (body i) (.ok ())) : max < intMax := by
  have ended := visits.returns rounds .initial
  rw [outcome_forRange rounds .initial] at ended
  have inner := ((forRangeOutcome_eq_ok order).mp ended).2
  omega

/-! ## The count -/

/-- The number of elements of a range, which `intRange` lists once each. -/
def elementCount (min max : Int) : Int := (intRange min max).length

theorem elementCount_eq (order : min ≤ max) : elementCount min max = max - min + 1 := by
  have listed : (intRange min max).length = (max + 1 - min).toNat := length_counted min _
  rw [elementCount, listed]
  omega

theorem isInt_count_iff (order : min ≤ max) : IsInt (max - min + 1) ↔ max - min < intMax := by
  unfold IsInt intMin
  omega

theorem checkedInt_count (order : min ≤ max) (fits : max - min < intMax) :
    checkedInt (max - min + 1) = .ok (elementCount min max) := by
  rw [elementCount_eq order]
  exact checkedInt_of_isInt ((isInt_count_iff order).mpr fits)

/-! ## What exact means for a pair of bounds -/

/-- `s_translate_edge_with_select` takes every value of a select variable. -/
def SelectsExact (min max : Int) : Prop :=
  ∀ (env : Env) (e : Edge) (ctx : ContextPrefix) (sel : Symbol) (rest : List Symbol) (p : Instance),
    enumerationBounds env p sel = .ok (min, max) →
      VisitsEachOnce min max
        (fun i => sTranslateEdgeWithSelect env e ctx rest (bindConstant p sel i))
        (sTranslateEdgeWithSelect env e ctx (sel :: rest) p)

/-- `s_translate_process_rec` takes every value of an open parameter. -/
def ParametersExact (min max : Int) : Prop :=
  ∀ (env : Env) (p : Instance) (nbUnbound : Nat) (ctx : ContextPrefix) (mapping : Mapping)
    (s : Symbol), p.parameters[nbUnbound]? = some s → enumerationBounds env p s = .ok (min, max) →
      VisitsEachOnce min max
        (fun i => sTranslateProcessRec env p nbUnbound (ctx ++ [sAssignmentToString env s i])
          (mapping.insert s (Expr.createConstant i)))
        (sTranslateProcessRec env p (nbUnbound + 1) ctx mapping)

/-- `s_enumerate_array_elements_decl` takes every index, unless its initialiser is
too short. -/
def CellsExact (min max : Int) : Prop :=
  ∀ (env : Env) (p : Option Instance) (arrayname : String) (subtype size : Ty)
    (init : Option Expr) (S : List Int), computeRangeBounds env p size = .ok (min, max) →
      (∀ e, init = some e → elementCount min max ≤ e.getSize) →
        VisitsEachOnce min max
          (fun i => do
            let cell ← fromExcept (initialCell init (i - min))
            sEnumerateArrayElementsDecl env p arrayname subtype cell (i :: S))
          (sEnumerateArrayElementsDecl env p arrayname (.array subtype size) init S)

/-- The sizes the declaration pass computes count the elements of the index type: the
size it declares, the one it asks of a list of equal values, and the one it asks of an
initialiser for the cells. -/
structure SizesExact (min max : Int) : Prop where
  declared : ∀ (env : Env) (p : Option Instance) (vname : String) (type basetype : Ty)
    (init initval : Option Expr),
      oneDimDeclaration env p type init = .ok (some (min, max, basetype, initval)) →
        declareArray env p vname type init =
          if type.stripArray.isClock then sDeclareOneDimClockArray vname (elementCount min max)
          else sDeclareOneDimArray env p vname (elementCount min max) basetype initval
  compared : ∀ (env : Env) (p : Option Instance) (e list : Expr) (size : Ty),
      e.type.isArray = true → namedInitialiser env e = .ok list →
      list.type.getArraySize? = some size → computeRangeBounds env p size = .ok (min, max) →
        areAllEqualsInList env p (some e) =
          if (list.getSize : Int) ≠ elementCount min max then
            trErr [.text "expression \x7b ", .expr list, .text " \x7d should have ",
              .int (elementCount min max), .text " elements."]
          else do
            let val ← orAssert "0 < getSize ()" list.subs[0]?
            .ok (list.subs.tail.all val.equal, some val)
  required : ∀ (env : Env) (p : Option Instance) (arrayname : String) (subtype size : Ty) (e : Expr)
    (S : List Int), computeRangeBounds env p size = .ok (min, max) →
      e.getSize < elementCount min max →
        Outcome (sEnumerateArrayElementsDecl env p arrayname (.array subtype size) (some e) S)
          (trErr [.text "invalid initializer size for array type: ", .expr e, .text "."])

/-- All loops over a range and all its counts are exact. -/
structure RangeExact (min max : Int) : Prop where
  selects : SelectsExact min max
  parameters : ParametersExact min max
  cells : CellsExact min max
  sizes : SizesExact min max

/-! ## A model with a given range -/

/-- `int[min, max]`. -/
def spanType (min max : Int) : Ty :=
  .range (.prim .int) (.constant min (.prim .int)) (.constant max (.prim .int))

/-- Every symbol has the type `int[min, max]`. -/
def spanEnv (min max : Int) : Env := ⟨fun _ => ⟨"i", spanType min max, true, none⟩, 0, 20⟩

/-- An edge from the initial location to itself that selects a value. -/
def spanEdge : Edge :=
  { actname := "", src := some 2, dst := some 2, select := [3]
    guard := .constant 1 (.prim .bool), sync := none, assign := .constant 1 (.prim .int) }

/-- A process with one open parameter, and nothing in its template. -/
def spanProcess : Instance :=
  { uid := 0, parameters := [1], mapping := ∅, unbound := 1
    templ := { vars := [], iodecl := [], functions := [], init := 2, states := [], edges := [] } }

theorem enumerationBounds_span (p : Instance) (s : Symbol) :
    enumerationBounds (spanEnv min max) p s = .ok (min, max) := rfl

theorem computeRangeBounds_span (order : min ≤ max) (p : Option Instance) :
    computeRangeBounds (spanEnv min max) p (spanType min max) = .ok (min, max) :=
  if_neg (Int.not_lt.mpr order)

theorem outcome_spanEdge (p : Instance) :
    Outcome (sTranslateEdge (spanEnv min max) spanEdge [] p) (.ok ()) := by
  intro st
  rcases st with ⟨trace, generated, events, localEvents, stuck⟩
  -- The first unlabelled edge writes the line of `tau`.
  cases generated with
  | true => rfl
  | false => rfl

theorem outcome_spanInstance (ctx : ContextPrefix) (i : Int) :
    Outcome (sTranslateInstance (spanEnv min max) ctx spanProcess
      ((∅ : Mapping).insert 1 (Expr.createConstant i))) (.ok ()) := by
  intro st
  rfl

theorem outcome_spanCell (p : Option Instance) (i : Int) (S : List Int) : Outcome (do
    let cell ← fromExcept (initialCell none i)
    sEnumerateArrayElementsDecl (spanEnv min max) p "x" (.prim .clock) cell S) (.ok ()) := by
  intro st
  rfl

/-! ## The limits -/

theorem selectsExact_iff (order : min ≤ max) (upper : max ≤ intMax) :
    SelectsExact min max ↔ max < intMax := by
  constructor
  · intro exact
    have visits := exact (spanEnv min max) spanEdge [] 3 [] spanProcess (enumerationBounds_span _ _)
    exact below_of_visits order upper visits fun i => outcome_spanEdge _
  · intro below env e ctx sel rest p bounds
    rw [sTranslateEdgeWithSelect, bounds]
    exact visits_forRange below

theorem parametersExact_iff (order : min ≤ max) (upper : max ≤ intMax) :
    ParametersExact min max ↔ max < intMax := by
  constructor
  · intro exact
    have visits := exact (spanEnv min max) spanProcess 0 [] ∅ 1 rfl (enumerationBounds_span _ _)
    exact below_of_visits order upper visits fun i => outcome_spanInstance _ i
  · intro below env p nbUnbound ctx mapping s listed bounds
    rw [sTranslateProcessRec, listed]
    change VisitsEachOnce _ _ _ (fromExcept (enumerationBounds env p s) >>= _)
    rw [bounds]
    exact visits_forRange below

/-- The loop over the cells starts once their count is known. -/
theorem cells_entered {env : Env} {p : Option Instance} {arrayname : String} {subtype size : Ty}
    {init : Option Expr} {S : List Int} (order : min ≤ max) (fits : max - min < intMax)
    (bounds : computeRangeBounds env p size = .ok (min, max))
    (enough : ∀ e, init = some e → elementCount min max ≤ e.getSize) :
    sEnumerateArrayElementsDecl env p arrayname (.array subtype size) init S =
      (forRange min max fun i => do
        let cell ← fromExcept (initialCell init (i - min))
        sEnumerateArrayElementsDecl env p arrayname subtype cell (i :: S)) := by
  rw [sEnumerateArrayElementsDecl, bounds]
  change (fromExcept (checkedInt (max - min + 1)) >>= _) = _
  rw [checkedInt_count order fits]
  cases init with
  | none => rfl
  | some e =>
      have long : ¬ elementCount min max > e.getSize := Int.not_lt.mpr (enough e rfl)
      exact if_neg long

theorem cellsExact_iff (order : min ≤ max) (upper : max ≤ intMax) :
    CellsExact min max ↔ max < intMax ∧ max - min < intMax := by
  constructor
  · intro exact
    have visits := exact (spanEnv min max) none "x" (.prim .clock) (spanType min max) none []
      (computeRangeBounds_span order _) (fun _ given => nomatch given)
    have ended := visits.returns (fun i => outcome_spanCell none _ _) .initial
    rw [outcome_arrayElements _ _ _ _ .initial, cellsOutcome_eq_ok] at ended
    obtain ⟨lo, hi, bounds, counted, _, _, inner⟩ := ended
    rw [computeRangeBounds_span order] at bounds
    cases bounds
    exact ⟨by omega, (isInt_count_iff order).mp counted⟩
  · rintro ⟨below, fits⟩ env p arrayname subtype size init S bounds enough
    rw [cells_entered order fits bounds enough]
    exact visits_forRange below

theorem oneDimDeclaration_span (order : min ≤ max) :
    oneDimDeclaration (spanEnv min max) none (.array (.prim .clock) (spanType min max)) none =
      .ok (some (min, max, .prim .clock, none)) := by
  have shape : isOneDimArrayType (spanEnv min max) none
      (.array (.prim .clock) (spanType min max)) = .ok (min, max, some (.prim .clock)) := by
    change (computeRangeBounds (spanEnv min max) none (spanType min max) >>= _) = _
    rw [computeRangeBounds_span order]
    rfl
  rw [oneDimDeclaration, shape]
  rfl

/-- The line of `clock x[int[min, max]]` is printed with a size that fits. -/
theorem fits_of_declared (order : min ≤ max) (exact : SizesExact min max) : max - min < intMax := by
  have oneDim := oneDimDeclaration_span order
  have printed := @outcome_declareArray (spanEnv min max) none "x"
    (.array (.prim .clock) (spanType min max)) none .initial
  rw [exact.declared _ _ _ _ _ _ _ oneDim, arrayOutcome, oneDim] at printed
  obtain ⟨_, found, sized⟩ := Res.bind_eq_ok.mp printed.symm
  cases found
  obtain ⟨size, counted, _⟩ := Res.bind_eq_ok.mp sized
  exact (isInt_count_iff order).mp (checkedInt_eq_ok_iff.mp counted).1

theorem sizesExact_iff (order : min ≤ max) : SizesExact min max ↔ max - min < intMax := by
  constructor
  · exact fits_of_declared order
  · intro fits
    have count := checkedInt_count order fits
    refine ⟨?_, ?_, ?_⟩
    · intro env p vname type basetype init initval found
      rw [declareArray, found]
      change (fromExcept (checkedInt (max - min + 1)) >>= _) = _
      rw [count]
      rfl
    · intro env p e list size isArray named sized bounds
      rw [areAllEqualsInList, isArray, named]
      change (orAssert _ list.type.getArraySize? >>= _) = _
      rw [sized]
      change (computeRangeBounds env p size >>= _) = _
      rw [bounds]
      change (checkedInt (max - min + 1) >>= _) = _
      rw [count]
      rfl
    · intro env p arrayname subtype size e S bounds short st
      have refused : sEnumerateArrayElementsDecl env p arrayname (.array subtype size) (some e) S =
          ((fromExcept (trErr [.text "invalid initializer size for array type: ", .expr e,
            .text "."]) : Tr Unit) >>= fun _ => forRange min max fun i => do
              let cell ← fromExcept (initialCell (some e) (i - min))
              sEnumerateArrayElementsDecl env p arrayname subtype cell (i :: S)) := by
        rw [sEnumerateArrayElementsDecl, bounds]
        change (fromExcept (checkedInt (max - min + 1)) >>= _) = _
        rw [count]
        exact if_pos short
      rw [refused]
      rfl

/-! ## The result -/

/-- The loops over a range and the counts of its elements are exact just for the ranges
that end below the greatest `int` and have no more elements than an `int` can count. -/
theorem range_loops_exact_iff (order : min ≤ max) (upper : max ≤ intMax) :
    RangeExact min max ↔ max < intMax ∧ max - min < intMax := by
  constructor
  · intro exact
    exact (cellsExact_iff order upper).mp exact.cells
  · rintro ⟨below, fits⟩
    refine ⟨?_, ?_, ?_, ?_⟩
    · exact (selectsExact_iff order upper).mpr below
    · exact (parametersExact_iff order upper).mpr below
    · exact (cellsExact_iff order upper).mpr ⟨below, fits⟩
    · exact (sizesExact_iff order).mpr fits

/-- `int[-2, 3]` is far from the limits. -/
theorem range_loops_exact_small : RangeExact (-2) 3 ↔ (3 : Int) < intMax ∧ 3 - (-2) < intMax :=
  range_loops_exact_iff (by decide) (by decide)

/-- `process P(int[2147483647, 2147483647] i)`: the only instance is translated, and
the increment behind it overflows. -/
theorem greatest_int_overflows :
    (exec (sTranslateProcessRec (spanEnv 2147483647 2147483647) spanProcess 0 ["P", "i_2147483647"]
        ((∅ : Mapping).insert 1 (Expr.createConstant 2147483647))) TrState.initial).1 = .ok () ∧
      (exec (sTranslateProcess (spanEnv 2147483647 2147483647) spanProcess) TrState.initial).1 =
        .error (.undefined "signed overflow") ∧
      ¬ RangeExact 2147483647 2147483647 := by
  refine ⟨rfl, rfl, ?_⟩
  intro exact
  have below := (parametersExact_iff (by decide) (by decide)).mp exact.parameters
  exact absurd below (by decide)

end Utot
