import Utot.Run.Aborts

/-!
# When the declaration pass aborts

For every declaration the exact condition under which it stops the pass by an
assertion or by undefined behaviour, and for a list of declarations the condition
on the first one that is not printed.
-/

namespace Utot

open Utap Library

/-! ## Initialisers of arrays -/

section

variable (env : Env) (p : Option Instance) (faulty : Expr → Prop)

/-- What stops the comparison of the entries of an initialiser: it is no array, it names
something without variable data, or the dimension of its type is not safe to compute. -/
inductive InitialiserStops (e : Expr) : Prop where
  | notArray (other : e.type.isArray = false)
  | noData {s : Symbol} {t : Ty} (array : e.type.isArray = true) (named : e = .identifier s t)
      (undefined : env.getData s = none)
  | noSize {list : Expr} (array : e.type.isArray = true) (named : namedInitialiser env e = .ok list)
      (missing : list.type.getArraySize? = none)
  | bounds {list : Expr} {size : Ty} (array : e.type.isArray = true)
      (named : namedInitialiser env e = .ok list) (sized : list.type.getArraySize? = some size)
      (stops : BoundsStop env p faulty size)
  | count {list : Expr} {size : Ty} {min max : Int} (array : e.type.isArray = true)
      (named : namedInitialiser env e = .ok list) (sized : list.type.getArraySize? = some size)
      (bounds : computeRangeBounds env p size = .ok (min, max)) (overflow : ¬ IsInt (max - min + 1))

/-- What stops the line of a one-dimensional array: bounds of its cells or an initial
value that are not safe to evaluate. -/
inductive ElementStops : Ty → Option Expr → Prop where
  | lower {t : Ty} {lower upper : Expr} {val : Option Expr} (number : t.isBoolean = false)
      (ranged : t.getRange? = some (lower, upper)) (stops : faulty lower) : ElementStops t val
  | upper {t : Ty} {lower upper : Expr} {val : Option Expr} {least : Int} (number : t.isBoolean = false)
      (ranged : t.getRange? = some (lower, upper)) (start : evalIntegerConstant env p lower = .ok least)
      (stops : faulty upper) : ElementStops t val
  | value {t : Ty} {e : Expr} {bounds : Int × Int} (bounded : elementBounds env p t = .ok bounds)
      (stops : faulty e) : ElementStops t (some e)

end

section

variable {env : Env} {p : Option Instance}

theorem stops_namedInitialiser {e : Expr} : Stops (namedInitialiser env e) ↔
    ∃ s t, e = .identifier s t ∧ env.getData s = none := by
  cases e with
  | identifier s t =>
      unfold namedInitialiser
      dsimp only
      cases data : env.getData s with
      | none => exact ⟨fun _ => ⟨s, t, rfl, data⟩, fun _ => ⟨_, rfl, trivial⟩⟩
      | some var =>
          refine ⟨fun stops => ?_, fun found => ?_⟩
          · dsimp only at stops
            split at stops
            · exact absurd stops (not_stops_trErr _)
            · exact absurd stops (not_stops_ok _)
          · obtain ⟨s', t', same, missing⟩ := found
            cases same
            rw [data] at missing
            cases missing
  | _ =>
      refine ⟨fun stops => absurd stops (not_stops_ok _), fun found => ?_⟩
      obtain ⟨s, t, same, _⟩ := found
      cases same

theorem stops_areAllEqualsInList {init : Option Expr} : Stops (areAllEqualsInList env p init) ↔
    ∃ e, init = some e ∧ InitialiserStops env p (Halts env p) e := by
  cases init with
  | none =>
      refine ⟨fun stops => absurd stops (not_stops_ok _), fun found => ?_⟩
      obtain ⟨e, given, _⟩ := found
      cases given
  | some e =>
      have given : (∃ e', some e = some e' ∧ InitialiserStops env p (Halts env p) e') ↔
          InitialiserStops env p (Halts env p) e := by
        constructor
        · rintro ⟨e', same, stops⟩
          cases same
          exact stops
        · exact fun stops => ⟨e, rfl, stops⟩
      rw [given]
      change Stops (assertThat e.type.isArray _ >>= _) ↔ _
      cases array : e.type.isArray with
      | false => exact ⟨fun _ => .notArray array, fun _ => ⟨_, rfl, trivial⟩⟩
      | true =>
          change Stops (namedInitialiser env e >>= _) ↔ _
          rw [stops_bind, stops_namedInitialiser]
          constructor
          · rintro (⟨s, t, named, undefined⟩ | ⟨list, named, stops⟩)
            · exact .noData array named undefined
            · rcases stops_bind.mp stops with stops | ⟨size, sized, stops⟩
              · exact .noSize array named (stops_orAssert.mp stops)
              · have sized := orAssert_eq_ok.mp sized
                rcases stops_bind.mp stops with stops | ⟨⟨min, max⟩, bounds, stops⟩
                · exact .bounds array named sized (stops_computeRangeBounds.mp stops)
                · rcases stops_bind.mp stops with stops | ⟨count, counted, stops⟩
                  · exact .count array named sized bounds (stops_checkedInt.mp stops)
                  · obtain ⟨_, rfl⟩ := checkedInt_eq_ok_iff.mp counted
                    obtain ⟨_, _, _, _, _, nonempty⟩ := bounds_of_computeRangeBounds bounds
                    split at stops
                    · exact absurd stops (not_stops_trErr _)
                    · rename_i length
                      cases entries : list.subs with
                      | nil =>
                          unfold Expr.getSize at length
                          rw [entries, List.length_nil] at length
                          omega
                      | cons val rest =>
                          rw [entries] at stops
                          exact absurd stops (not_stops_ok _)
          · intro stops
            cases stops with
            | notArray other =>
                rw [array] at other
                cases other
            | noData _ named undefined => exact .inl ⟨_, _, named, undefined⟩
            | noSize _ named missing =>
                refine .inr ⟨_, named, ?_⟩
                rw [missing]
                exact ⟨_, rfl, trivial⟩
            | bounds _ named sized stops =>
                refine .inr ⟨_, named, ?_⟩
                rw [sized]
                exact (stops_computeRangeBounds.mpr stops).bind _
            | count _ named sized bounds overflow =>
                refine .inr ⟨_, named, ?_⟩
                rw [sized]
                change Stops (computeRangeBounds env p _ >>= _)
                rw [bounds]
                exact (stops_checkedInt.mpr overflow).bind _

/-! ## One-dimensional arrays -/

theorem getRange?_of_isRange : ∀ {t : Ty}, t.isRange = true → ∃ bounds, t.getRange? = some bounds
  | .prim _, ranged => by cases ranged
  | .pre _ t, ranged => getRange?_of_isRange (t := t) ranged
  | .ref t, ranged => getRange?_of_isRange (t := t) ranged
  | .label _ t, ranged => getRange?_of_isRange (t := t) ranged
  | .range _ lower upper, _ => ⟨(lower, upper), rfl⟩
  | .array _ _, ranged => by cases ranged
  | .record _ _, ranged => by cases ranged

theorem isRange_of_getRange? : ∀ {t : Ty} {bounds : Expr × Expr}, t.getRange? = some bounds → t.isRange = true
  | .prim _, _, ranged => by cases ranged
  | .pre _ t, _, ranged => isRange_of_getRange? (t := t) ranged
  | .ref t, _, ranged => isRange_of_getRange? (t := t) ranged
  | .label _ t, _, ranged => isRange_of_getRange? (t := t) ranged
  | .range _ _ _, _, _ => rfl
  | .array _ _, _, ranged => by cases ranged
  | .record _ _, _, ranged => by cases ranged

theorem stops_elementBounds {t : Ty} : Stops (elementBounds env p t) ↔ t.isBoolean = false ∧
    ∃ lower upper, t.getRange? = some (lower, upper) ∧ (Halts env p lower ∨
      (∃ least, evalIntegerConstant env p lower = .ok least) ∧ Halts env p upper) := by
  unfold elementBounds
  cases number : t.isBoolean with
  | true => exact ⟨fun stops => absurd stops (not_stops_ok _), fun both => by cases both.1⟩
  | false =>
      rw [if_neg Bool.false_ne_true]
      by_cases isRange : t.isRange = true
      · rw [if_pos isRange]
        obtain ⟨⟨lower, upper⟩, ranged⟩ := getRange?_of_isRange isRange
        rw [ranged]
        change Stops (evalIntegerConstant env p lower >>= _) ↔ _
        rw [stops_bind]
        constructor
        · rintro (stops | ⟨least, start, stops⟩)
          · exact ⟨rfl, lower, upper, rfl, .inl stops⟩
          · rcases stops_bind.mp stops with stops | ⟨_, _, stops⟩
            · exact ⟨rfl, lower, upper, rfl, .inr ⟨⟨least, start⟩, stops⟩⟩
            · exact absurd stops (not_stops_ok _)
        · rintro ⟨_, _, _, same, stops | ⟨⟨least, start⟩, stops⟩⟩
          · cases same
            exact .inl stops
          · cases same
            exact .inr ⟨least, start, stops.bind _⟩
      · rw [if_neg isRange]
        refine ⟨fun stops => absurd stops (not_stops_ok _), fun both => ?_⟩
        obtain ⟨_, lower, upper, ranged, _⟩ := both
        exact absurd (isRange_of_getRange? ranged) isRange

theorem stops_oneDimOutcome {vname : String} {t : Ty} {val : Option Expr} :
    Stops (oneDimOutcome env p vname t val) ↔ ElementStops env p (Halts env p) t val := by
  have finish (bounds : Int × Int) (ival : Int) : ¬ Stops (
      if bounds.1 ≤ ival ∧ ival ≤ bounds.2 then intvarOutcome bounds.1 bounds.2 ival
      else
        trErr [.text "initial value ", .int ival, .text " is out of range [", .int bounds.1,
          .text ",", .int bounds.2, .text "] for array '", .text vname, .text "'."] : Res Unit) := by
    split
    · rename_i inside
      rw [intvarOutcome_eq_ok inside]
      exact not_stops_ok ()
    · exact not_stops_trErr _
  constructor
  · intro stops
    rcases stops_bind.mp stops with stops | ⟨bounds, bounded, stops⟩
    · obtain ⟨number, lower, upper, ranged, stops | ⟨⟨least, start⟩, stops⟩⟩ := stops_elementBounds.mp stops
      · exact .lower number ranged stops
      · exact .upper number ranged start stops
    · cases val with
      | none => exact absurd stops (finish bounds _)
      | some e =>
          rcases stops_bind.mp stops with stops | ⟨ival, _, stops⟩
          · exact .value bounded stops
          · exact absurd stops (finish bounds _)
  · intro stops
    refine stops_bind.mpr ?_
    cases stops with
    | lower number ranged stops =>
        exact .inl (stops_elementBounds.mpr ⟨number, _, _, ranged, .inl stops⟩)
    | upper number ranged start stops =>
        exact .inl (stops_elementBounds.mpr ⟨number, _, _, ranged, .inr ⟨⟨_, start⟩, stops⟩⟩)
    | value bounded stops => exact .inr ⟨_, bounded, stops.bind _⟩

theorem oneDimOutcome_eq_ok {vname : String} {t : Ty} {val : Option Expr} :
    oneDimOutcome env p vname t val = .ok () ↔ ∃ lo hi v, ArrayLine env p t val lo hi v := by
  have finish (bounds : Int × Int) (ival : Int) : (
      if bounds.1 ≤ ival ∧ ival ≤ bounds.2 then intvarOutcome bounds.1 bounds.2 ival
      else
        trErr [.text "initial value ", .int ival, .text " is out of range [", .int bounds.1,
          .text ",", .int bounds.2, .text "] for array '", .text vname, .text "'."] : Res Unit) = .ok () ↔
      bounds.1 ≤ ival ∧ ival ≤ bounds.2 := by
    split
    · rename_i inside
      exact ⟨fun _ => inside, fun _ => intvarOutcome_eq_ok inside⟩
    · rename_i outside
      refine ⟨fun same => ?_, fun inside => absurd inside outside⟩
      cases same
  constructor
  · intro returned
    obtain ⟨bounds, bounded, returned⟩ := Res.bind_eq_ok.mp returned
    cases val with
    | none =>
        obtain ⟨lower, upper⟩ := (finish bounds _).mp returned
        exact ⟨_, _, _, .default bounded (lower.trans upper)⟩
    | some e =>
        obtain ⟨ival, value, returned⟩ := Res.bind_eq_ok.mp returned
        obtain ⟨lower, upper⟩ := (finish bounds _).mp returned
        exact ⟨_, _, _, .given bounded value lower upper⟩
  · rintro ⟨lo, hi, v, line⟩
    cases line with
    | given bounds evaluated lower upper =>
        exact Res.bind_eq_ok.mpr ⟨_, bounds, Res.bind_eq_ok.mpr
          ⟨_, evaluated, (finish (_, _) _).mpr ⟨lower, upper⟩⟩⟩
    | @default lo hi bounds nonempty =>
        refine Res.bind_eq_ok.mpr ⟨_, bounds, (finish (lo, hi) _).mpr ?_⟩
        dsimp only
        split <;> omega

end

/-! ## Arrays -/

section

variable (env : Env) (p : Option Instance) (faulty : Expr → Prop)

/-- What stops the declaration of an array of type `.array sub size`. -/
inductive ArrayStops (sub size : Ty) (init : Option Expr) : Prop where
  | bounds (stops : BoundsStop env p faulty size)
  | initialiser {e : Expr} {bounds : Int × Int} (bounded : computeRangeBounds env p size = .ok bounds)
      (looks : looksOneDim (.array sub size) = true) (given : init = some e)
      (stops : InitialiserStops env p faulty e)
  | count {min max : Int} {cell : Ty} {val : Option Expr}
      (whole : oneDimDeclaration env p (.array sub size) init = .ok (some (min, max, cell, val)))
      (overflow : ¬ IsInt (max - min + 1))
  | element {min max : Int} {cell : Ty} {val : Option Expr}
      (whole : oneDimDeclaration env p (.array sub size) init = .ok (some (min, max, cell, val)))
      (noClock : sub.stripArray.isClock = false) (stops : ElementStops env p faulty cell val)
  | cells (split : oneDimDeclaration env p (.array sub size) init = .ok none)
      (stops : CellsStop env p faulty (.array sub size) init)

/-- The declaration of an array is printed. -/
inductive ArrayPrints (sub size : Ty) (init : Option Expr) : Prop where
  | clocks {min max : Int} {cell : Ty} {val : Option Expr}
      (whole : oneDimDeclaration env p (.array sub size) init = .ok (some (min, max, cell, val)))
      (counted : IsInt (max - min + 1)) (isClock : sub.stripArray.isClock = true)
  | integers {min max lo hi v : Int} {cell : Ty} {val : Option Expr}
      (whole : oneDimDeclaration env p (.array sub size) init = .ok (some (min, max, cell, val)))
      (counted : IsInt (max - min + 1)) (noClock : sub.stripArray.isClock = false)
      (printed : ArrayLine env p cell val lo hi v)
  | cells (split : oneDimDeclaration env p (.array sub size) init = .ok none)
      (printed : CellsPrint env p (.array sub size) init)

end

section

variable {env : Env} {p : Option Instance} {sub size : Ty} {init : Option Expr} {vname : String}

theorem isOneDimArrayType_array : isOneDimArrayType env p (.array sub size) =
    (computeRangeBounds env p size >>= fun bounds => .ok (bounds.1, bounds.2,
      if looksOneDim (.array sub size) = true then some (stripRefsAndLabels sub) else none)) := by
  refine congrArg (computeRangeBounds env p size >>= ·) (funext fun bounds => ?_)
  have looks : looksOneDim (.array sub size) =
      (!sub.isArray && isCellKind (stripRefsAndLabels sub).kind) := rfl
  rw [looks]
  change (if sub.isArray = true then _ else _) = _
  cases sub.isArray with
  | true => rfl
  | false => rfl

theorem oneDimDeclaration_array : oneDimDeclaration env p (.array sub size) init =
    (computeRangeBounds env p size >>= fun bounds =>
      if looksOneDim (.array sub size) = true then
        areAllEqualsInList env p init >>= fun answer =>
          .ok (if answer.1 = true then some (bounds.1, bounds.2, stripRefsAndLabels sub, answer.2)
            else none)
      else .ok none) := by
  unfold oneDimDeclaration
  rw [isOneDimArrayType_array]
  cases computeRangeBounds env p size with
  | error f => rfl
  | ok bounds =>
      cases looksOneDim (.array sub size) with
      | false => rfl
      | true => rfl

theorem stops_oneDimDeclaration : Stops (oneDimDeclaration env p (.array sub size) init) ↔
    BoundsStop env p (Halts env p) size ∨ (∃ bounds, computeRangeBounds env p size = .ok bounds) ∧
      looksOneDim (.array sub size) = true ∧ ∃ e, init = some e ∧ InitialiserStops env p (Halts env p) e := by
  rw [oneDimDeclaration_array, stops_bind, stops_computeRangeBounds]
  refine or_congr_right ?_
  cases looksOneDim (.array sub size) with
  | false =>
      constructor
      · rintro ⟨_, _, stops⟩
        exact absurd stops (not_stops_ok _)
      · rintro ⟨_, same, _⟩
        cases same
  | true =>
      constructor
      · rintro ⟨bounds, computed, stops⟩
        rcases stops_bind.mp stops with stops | ⟨_, _, stops⟩
        · exact ⟨⟨bounds, computed⟩, rfl, stops_areAllEqualsInList.mp stops⟩
        · exact absurd stops (not_stops_ok _)
      · rintro ⟨⟨bounds, computed⟩, _, stops⟩
        exact ⟨bounds, computed, (stops_areAllEqualsInList.mpr stops).bind _⟩

theorem stops_arrayOutcome : Stops (arrayOutcome env p vname (.array sub size) init) ↔
    ArrayStops env p (Halts env p) sub size init := by
  constructor
  · intro stops
    rcases stops_bind.mp stops with stops | ⟨answer, decided, stops⟩
    · rcases stops_oneDimDeclaration.mp stops with stops | ⟨⟨bounds, bounded⟩, looks, e, given, stops⟩
      · exact .bounds stops
      · exact .initialiser bounded looks given stops
    · cases answer with
      | none => exact .cells decided ((stops_cellsOutcome _ _ _).mp stops)
      | some whole =>
          obtain ⟨min, max, cell, val⟩ := whole
          rcases stops_bind.mp stops with stops | ⟨count, _, stops⟩
          · exact .count decided (stops_checkedInt.mp stops)
          · by_cases clock : sub.stripArray.isClock = true
            · have last : ¬ Stops (if sub.stripArray.isClock = true then .ok ()
                  else oneDimOutcome env p vname cell val) := by
                rw [if_pos clock]
                exact not_stops_ok ()
              exact absurd stops last
            · have last : Stops (if sub.stripArray.isClock = true then .ok ()
                  else oneDimOutcome env p vname cell val) := stops
              rw [if_neg clock] at last
              exact .element decided (Bool.eq_false_iff.mpr clock) (stops_oneDimOutcome.mp last)
  · intro stops
    refine stops_bind.mpr ?_
    cases stops with
    | bounds stops => exact .inl (stops_oneDimDeclaration.mpr (.inl stops))
    | initialiser bounded looks given stops =>
        exact .inl (stops_oneDimDeclaration.mpr (.inr ⟨⟨_, bounded⟩, looks, _, given, stops⟩))
    | count whole overflow => exact .inr ⟨_, whole, (stops_checkedInt.mpr overflow).bind _⟩
    | @element min max cell val whole noClock stops =>
        refine .inr ⟨_, whole, ?_⟩
        by_cases fits : IsInt (max - min + 1)
        · change Stops (checkedInt (max - min + 1) >>= _)
          rw [checkedInt_of_isInt fits]
          change Stops (if sub.stripArray.isClock = true then .ok ()
            else oneDimOutcome env p vname cell val)
          rw [noClock]
          exact stops_oneDimOutcome.mpr stops
        · exact (stops_checkedInt.mpr fits).bind _
    | cells split stops => exact .inr ⟨_, split, (stops_cellsOutcome _ _ _).mpr stops⟩

theorem arrayOutcome_eq_ok : arrayOutcome env p vname (.array sub size) init = .ok () ↔
    ArrayPrints env p sub size init := by
  constructor
  · intro returned
    obtain ⟨answer, decided, returned⟩ := Res.bind_eq_ok.mp returned
    cases answer with
    | none => exact .cells decided ((cellsOutcome_eq_ok _ _ _).mp returned)
    | some whole =>
        obtain ⟨min, max, cell, val⟩ := whole
        obtain ⟨count, counted, returned⟩ := Res.bind_eq_ok.mp returned
        obtain ⟨fits, _⟩ := checkedInt_eq_ok_iff.mp counted
        have last : (if sub.stripArray.isClock = true then .ok ()
            else oneDimOutcome env p vname cell val) = .ok () := returned
        cases clock : sub.stripArray.isClock with
        | true => exact .clocks decided fits clock
        | false =>
            rw [clock] at last
            obtain ⟨lo, hi, v, line⟩ := oneDimOutcome_eq_ok.mp last
            exact .integers decided fits clock line
  · intro printed
    refine Res.bind_eq_ok.mpr ?_
    cases printed with
    | clocks whole counted isClock =>
        exact ⟨_, whole, Res.bind_eq_ok.mpr ⟨_, checkedInt_of_isInt counted, if_pos isClock⟩⟩
    | integers whole counted noClock line =>
        refine ⟨_, whole, Res.bind_eq_ok.mpr ⟨_, checkedInt_of_isInt counted, ?_⟩⟩
        refine (if_neg ?_).trans (oneDimOutcome_eq_ok.mpr ⟨_, _, _, line⟩)
        exact Bool.eq_false_iff.mp noClock
    | cells split printed => exact ⟨_, split, (cellsOutcome_eq_ok _ _ _).mpr printed⟩

end

/-! ## Declarations -/

section

variable (env : Env) (p : Option Instance) (faulty : Expr → Prop)

/-- What stops the declaration of a variable, by its type without outer names. -/
inductive DeclarationStops : Ty → Option Expr → Prop where
  | variable' {t : Ty} {init : Option Expr} (kind : isVariableKind t.kind = true)
      (stops : VariableStops env p faulty t init) : DeclarationStops t init
  | array {sub size : Ty} {init : Option Expr} (stops : ArrayStops env p faulty sub size init) :
      DeclarationStops (.array sub size) init

/-- The declaration of a variable is printed. -/
inductive DeclarationPrints : Ty → Option Expr → Prop where
  | eventOrClock {t : Ty} {init : Option Expr} (kind : isEventOrClock t.kind = true) :
      DeclarationPrints t init
  | variable' {t : Ty} {init : Option Expr} {lo hi v : Int} (kind : isVariableKind t.kind = true)
      (line : VariableLine env p t init lo hi v) : DeclarationPrints t init
  | array {sub size : Ty} {init : Option Expr} (printed : ArrayPrints env p sub size init) :
      DeclarationPrints (.array sub size) init

end

section

variable {env : Env} {p : Option Instance} {ctx : ContextPrefix} {s : Symbol}

theorem not_variableKind_of_event {k : Kind} (kind : isEventOrClock k = true) :
    isVariableKind k = false := by
  cases k with
  | prim k => cases k <;> first | rfl | cases kind
  | pre k => cases k <;> first | rfl | cases kind
  | _ => cases kind

theorem declarationOutcome_eq {t : Ty} (type : stripLabels (env.getType s) = t) :
    ∃ args, declarationOutcome env p ctx s =
      if isVariableKind t.kind = true then
        variableOutcome env p (addPrefix ctx (env.getName s)) t (env.initialiser s)
      else if isEventOrClock t.kind = true then .ok ()
      else if t.kind = .array then
        arrayOutcome env p (addPrefix ctx (env.getName s)) t (env.initialiser s)
      else trErr args := by
  refine ⟨[.text "don't know what to do with this kind of variable: ", .text (env.getName s)], ?_⟩
  unfold declarationOutcome
  rw [type]
  dsimp only
  generalize t.kind = kind
  cases kind with
  | prim k => cases k <;> rfl
  | pre k => cases k <;> rfl
  | _ => rfl

theorem stops_declarationOutcome : Stops (declarationOutcome env p ctx s) ↔
    DeclarationStops env p (Halts env p) (stripLabels (env.getType s)) (env.initialiser s) := by
  have stripped := stripLabels_idem (env.getType s)
  generalize type : stripLabels (env.getType s) = t
  rw [type] at stripped
  obtain ⟨args, same⟩ := @declarationOutcome_eq env p ctx s t type
  rw [same]
  by_cases number : isVariableKind t.kind = true
  · rw [if_pos number, stops_variableOutcome, stripped]
    refine ⟨.variable' number, fun stops => ?_⟩
    cases stops with
    | variable' _ stops => exact stops
    | array => cases number
  · rw [if_neg number]
    by_cases event : isEventOrClock t.kind = true
    · rw [if_pos event]
      refine ⟨fun stops => absurd stops (not_stops_ok ()), fun stops => ?_⟩
      cases stops with
      | variable' kind => exact absurd kind number
      | array => cases event
    · rw [if_neg event]
      cases t with
      | array sub size =>
          rw [if_pos (show (Ty.array sub size).kind = .array from rfl), stops_arrayOutcome]
          refine ⟨.array, fun stops => ?_⟩
          cases stops with
          | variable' kind => exact absurd kind number
          | array stops => exact stops
      | _ =>
          rw [if_neg (by rintro ⟨⟩)]
          refine ⟨fun stops => absurd stops (not_stops_trErr args), fun stops => ?_⟩
          cases stops with
          | variable' kind => exact absurd kind number

theorem declarationOutcome_eq_ok : declarationOutcome env p ctx s = .ok () ↔
    DeclarationPrints env p (stripLabels (env.getType s)) (env.initialiser s) := by
  have stripped := stripLabels_idem (env.getType s)
  generalize type : stripLabels (env.getType s) = t
  rw [type] at stripped
  obtain ⟨args, same⟩ := @declarationOutcome_eq env p ctx s t type
  rw [same]
  by_cases number : isVariableKind t.kind = true
  · rw [if_pos number, variableOutcome_eq_ok, stripped]
    constructor
    · rintro ⟨lo, hi, v, line⟩
      exact .variable' number line
    · intro printed
      cases printed with
      | eventOrClock kind => exact absurd number (by rw [not_variableKind_of_event kind]; decide)
      | variable' _ line => exact ⟨_, _, _, line⟩
      | array => cases number
  · rw [if_neg number]
    by_cases event : isEventOrClock t.kind = true
    · rw [if_pos event]
      exact ⟨fun _ => .eventOrClock event, fun _ => rfl⟩
    · rw [if_neg event]
      cases t with
      | array sub size =>
          rw [if_pos (show (Ty.array sub size).kind = .array from rfl), arrayOutcome_eq_ok]
          refine ⟨.array, fun printed => ?_⟩
          cases printed with
          | eventOrClock kind => exact absurd kind event
          | variable' kind => exact absurd kind number
          | array printed => exact printed
      | _ =>
          rw [if_neg (by rintro ⟨⟩)]
          refine ⟨fun same => (by cases same), fun printed => ?_⟩
          cases printed with
          | eventOrClock kind => exact absurd kind event
          | variable' kind => exact absurd kind number

/-! ## The pass -/

/-- The declaration pass is stopped by an assertion or by undefined behaviour if and
only if some declaration stops and those before it are printed. -/
theorem declarations_stop_iff (env : Env) (p : Option Instance) (ctx : ContextPrefix)
    (decl : Declarations) (st : TrState) :
    Stops (exec (translateDeclarations env p ctx decl) st).1 ↔
      ∃ before s after, visitedVariables p decl = before ++ s :: after ∧
        (∀ c ∈ before, DeclarationPrints env p (stripLabels (env.getType c)) (env.initialiser c)) ∧
        DeclarationStops env p (Halts env p) (stripLabels (env.getType s)) (env.initialiser s) := by
  rw [outcome_declarations ctx decl st]
  unfold declarationsOutcome
  rw [stops_forM]
  refine exists_congr fun before => exists_congr fun s => exists_congr fun after => ?_
  refine and_congr_right fun _ => and_congr (forall_congr' fun c => imp_congr_right fun _ => ?_) ?_
  · exact declarationOutcome_eq_ok
  · exact stops_declarationOutcome

end

end Utot
