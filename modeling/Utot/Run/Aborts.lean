import Utot.Meaning.Safety
import Utot.Run.Cells
import Utot.Run.Outcomes

/-!
# Which declarations abort

What stops the declaration pass by an assertion or by undefined behaviour: a
part with an unsupported type, a missing or ill-formed initialiser, or a constant
expression that is not safe to evaluate.
-/

namespace Utot

open Utap Library

/-! ## Computations that stop -/

section

variable {α β : Type} {x : Res α} {g : α → Res β}

theorem not_stops_ok (a : α) : ¬ Stops (.ok a : Res α) := by
  rintro ⟨f, same, _⟩
  cases same

theorem not_stops_trErr (args : List Arg) : ¬ Stops (trErr args : Res α) := by
  rintro ⟨f, same, aborts⟩
  exact not_aborts_trErr same aborts

theorem stops_bind : Stops (x >>= g) ↔ Stops x ∨ ∃ a, x = .ok a ∧ Stops (g a) := by
  constructor
  · rintro ⟨f, failed, aborts⟩
    rcases Res.bind_eq_error.mp failed with failed | ⟨a, returned, failed⟩
    · exact .inl ⟨f, failed, aborts⟩
    · exact .inr ⟨a, returned, f, failed, aborts⟩
  · rintro (stops | ⟨a, rfl, stops⟩)
    · exact stops.bind g
    · exact stops

theorem stops_orAssert {what : String} {o : Option α} : Stops (orAssert what o) ↔ o = none := by
  cases o with
  | none => exact ⟨fun _ => rfl, fun _ => ⟨_, rfl, trivial⟩⟩
  | some a => exact ⟨fun stops => absurd stops (not_stops_ok a), fun same => by cases same⟩

theorem stops_checkedInt {n : Int} : Stops (checkedInt n) ↔ ¬ IsInt n := by
  by_cases fits : IsInt n
  · rw [checkedInt_of_isInt fits]
    exact ⟨fun stops => absurd stops (not_stops_ok n), fun outside => absurd fits outside⟩
  · rw [checkedInt_of_not_isInt fits]
    exact ⟨fun _ => fits, fun _ => ⟨_, rfl, trivial⟩⟩

theorem checkedInt_eq_ok_iff {n w : Int} : checkedInt n = .ok w ↔ IsInt n ∧ w = n := by
  constructor
  · intro checked
    refine ⟨?_, checkedInt_eq_ok checked⟩
    by_contra outside
    rw [checkedInt_of_not_isInt outside] at checked
    cases checked
  · rintro ⟨fits, rfl⟩
    exact checkedInt_of_isInt fits

end

/-! ## Loops -/

section

variable {α : Type} {as : List α} {g : α → Res Unit}

theorem forM_eq_ok : as.forM g = .ok () ↔ ∀ a ∈ as, g a = .ok () := by
  induction as with
  | nil => exact ⟨fun _ a inside => absurd inside List.not_mem_nil, fun _ => rfl⟩
  | cons a as ih =>
      change (g a >>= fun _ => as.forM g) = .ok () ↔ _
      rw [Res.bind_eq_ok, List.forall_mem_cons, ← ih]
      constructor
      · rintro ⟨_, first, later⟩
        exact ⟨first, later⟩
      · rintro ⟨first, later⟩
        exact ⟨(), first, later⟩

/-- A loop stops in the first round that does not return. -/
theorem stops_forM : Stops (as.forM g) ↔
    ∃ before a after, as = before ++ a :: after ∧ (∀ b ∈ before, g b = .ok ()) ∧ Stops (g a) := by
  induction as with
  | nil =>
      constructor
      · exact fun stops => absurd stops (not_stops_ok _)
      · rintro ⟨before, a, after, split, _⟩
        cases before <;> cases split
  | cons c as ih =>
      change Stops (g c >>= fun _ => as.forM g) ↔ _
      rw [stops_bind]
      constructor
      · rintro (stops | ⟨_, first, later⟩)
        · exact ⟨[], c, as, rfl, fun b inside => absurd inside List.not_mem_nil, stops⟩
        · obtain ⟨before, a, after, split, passed, stops⟩ := ih.mp later
          refine ⟨c :: before, a, after, by rw [split, List.cons_append], ?_, stops⟩
          exact List.forall_mem_cons.mpr ⟨first, passed⟩
      · rintro ⟨before, a, after, split, passed, stops⟩
        cases before with
        | nil =>
            cases split
            exact .inl stops
        | cons b before =>
            cases split
            obtain ⟨first, passed⟩ := List.forall_mem_cons.mp passed
            exact .inr ⟨(), first, ih.mpr ⟨before, a, after, rfl, passed, stops⟩⟩

end

section

variable {min max : Int} {g : Int → Res Unit}

theorem forRangeOutcome_eq_ok (nonempty : min ≤ max) : forRangeOutcome min max g = .ok () ↔
    (∀ i, min ≤ i → i ≤ max → g i = .ok ()) ∧ max ≠ intMax := by
  unfold forRangeOutcome
  rw [Res.bind_eq_ok]
  constructor
  · rintro ⟨_, rounds, last⟩
    refine ⟨fun i lower upper => forM_eq_ok.mp rounds i (mem_intRange.mpr ⟨lower, upper⟩), ?_⟩
    intro limit
    rw [if_pos ⟨nonempty, limit⟩] at last
    cases last
  · rintro ⟨rounds, limit⟩
    refine ⟨(), forM_eq_ok.mpr fun i inside => ?_, if_neg fun both => limit both.2⟩
    obtain ⟨lower, upper⟩ := mem_intRange.mp inside
    exact rounds i lower upper

/-- The rounds before one of them are those of the smaller numbers. -/
theorem mem_before_iff {before after : List Int} {i j : Int}
    (split : intRange min max = before ++ i :: after) : j ∈ before ↔ min ≤ j ∧ j < i := by
  have sorted := pairwise_intRange min max
  have listed : i ∈ intRange min max := by rw [split]; simp
  obtain ⟨_, upper⟩ := mem_intRange.mp listed
  rw [split, List.pairwise_append, List.pairwise_cons] at sorted
  obtain ⟨_, ⟨larger, _⟩, smaller⟩ := sorted
  constructor
  · intro inside
    have member : j ∈ intRange min max := by rw [split]; simp [inside]
    exact ⟨(mem_intRange.mp member).1, smaller j inside i List.mem_cons_self⟩
  · rintro ⟨lower, less⟩
    have member : j ∈ intRange min max := mem_intRange.mpr ⟨lower, by omega⟩
    rw [split, List.mem_append, List.mem_cons] at member
    rcases member with inside | rfl | inside
    · exact inside
    · omega
    · have := larger j inside
      omega

theorem stops_forRangeOutcome (nonempty : min ≤ max) : Stops (forRangeOutcome min max g) ↔
    (∃ i, (min ≤ i ∧ i ≤ max) ∧ (∀ j, min ≤ j → j < i → g j = .ok ()) ∧ Stops (g i)) ∨
      (∀ i, min ≤ i → i ≤ max → g i = .ok ()) ∧ max = intMax := by
  unfold forRangeOutcome
  rw [stops_bind, stops_forM]
  constructor
  · rintro (⟨before, i, after, split, passed, stops⟩ | ⟨_, rounds, last⟩)
    · have listed : i ∈ intRange min max := by rw [split]; simp
      exact .inl ⟨i, mem_intRange.mp listed,
        fun j lower less => passed j ((mem_before_iff split).mpr ⟨lower, less⟩), stops⟩
    · refine .inr ⟨fun i lower upper => forM_eq_ok.mp rounds i (mem_intRange.mpr ⟨lower, upper⟩), ?_⟩
      by_contra limit
      rw [if_neg fun both => limit both.2] at last
      exact not_stops_ok _ last
  · rintro (⟨i, inside, passed, stops⟩ | ⟨rounds, limit⟩)
    · obtain ⟨before, after, split⟩ := List.append_of_mem (mem_intRange.mpr inside)
      refine .inl ⟨before, i, after, split, fun j member => ?_, stops⟩
      obtain ⟨lower, less⟩ := (mem_before_iff split).mp member
      exact passed j lower less
    · refine .inr ⟨(), forM_eq_ok.mpr fun i inside => ?_, ?_⟩
      · obtain ⟨lower, upper⟩ := mem_intRange.mp inside
        exact rounds i lower upper
      · rw [if_pos ⟨nonempty, limit⟩]
        exact ⟨_, rfl, trivial⟩

end

/-! ## Bounds -/

/-- The evaluation of an expression is stopped. -/
def Halts (env : Env) (p : Option Instance) (e : Expr) : Prop := Stops (evalIntegerConstant env p e)

/-- What stops the computation of bounds, given the expressions that stop the evaluator: a type
that is no type of indices, or one of the two bounds. -/
inductive BoundsStop (env : Env) (p : Option Instance) (faulty : Expr → Prop) (size : Ty) : Prop where
  | type (other : isIndexType size = false)
  | lower {lower upper : Expr} (indexType : isIndexType size = true)
      (ranged : size.getRange? = some (lower, upper)) (stops : faulty lower)
  | upper {lower upper : Expr} {least : Int} (indexType : isIndexType size = true)
      (ranged : size.getRange? = some (lower, upper)) (start : evalIntegerConstant env p lower = .ok least)
      (stops : faulty upper)

theorem stops_computeRangeBounds {env : Env} {p : Option Instance} {size : Ty} :
    Stops (computeRangeBounds env p size) ↔ BoundsStop env p (Halts env p) size := by
  cases indexType : isIndexType size with
  | false =>
      obtain ⟨what, failed⟩ := computeRangeBoundsWith_assertion indexType (evalIntegerConstant env p)
      exact ⟨fun _ => .type indexType, fun _ => ⟨_, failed, trivial⟩⟩
  | true =>
      obtain ⟨lower, upper, ranged, same⟩ := computeRangeBoundsWith_eq indexType
      unfold computeRangeBounds
      rw [same, stops_bind]
      constructor
      · rintro (stops | ⟨least, start, stops⟩)
        · exact .lower indexType ranged stops
        · rcases stops_bind.mp stops with stops | ⟨greatest, _, stops⟩
          · exact .upper indexType ranged start stops
          · split at stops
            · exact absurd stops (not_stops_trErr _)
            · exact absurd stops (not_stops_ok _)
      · intro stops
        cases stops with
        | type other => cases indexType.symm.trans other
        | lower _ ranged' stops =>
            cases ranged.symm.trans ranged'
            exact .inl stops
        | upper _ ranged' start stops =>
            cases ranged.symm.trans ranged'
            exact .inr ⟨_, start, stops.bind _⟩

/-! ## Integer variables -/

section

variable (env : Env) (p : Option Instance) (faulty : Expr → Prop)

/-- What stops the printing of an integer variable: a kind it does not know, bounds or
an initial value that are not safe to evaluate, a constant without initialiser. -/
inductive VariableStops : Ty → Option Expr → Prop where
  | kind {t : Ty} {init : Option Expr} (unsupported : isVariableKind t.kind = false) :
      VariableStops t init
  | bounds {t : Ty} {init : Option Expr} (ranged : t.kind = .range)
      (stops : BoundsStop env p faulty t) : VariableStops t init
  | uninitialised {t : Ty} : VariableStops (.pre .constant t) none
  | value {t : Ty} {e : Expr} {bounds : Option (Int × Int)} (supported : isVariableKind t.kind = true)
      (bounded : variableBounds env p t = .ok bounds) (stops : faulty e) : VariableStops t (some e)

end

section

variable {env : Env} {p : Option Instance} {vname : String} {type : Ty} {init : Option Expr}

theorem intvarOutcome_eq_ok {min max init : Int} (inside : min ≤ init ∧ init ≤ max) :
    intvarOutcome min max init = .ok () := by
  have first : (decide (min ≤ max)) = true := decide_eq_true (inside.1.trans inside.2)
  have second : (decide (min ≤ init) && decide (init ≤ max)) = true := by
    rw [decide_eq_true inside.1, decide_eq_true inside.2]
    rfl
  unfold intvarOutcome
  rw [first, second]
  rfl

/-- The last steps of `s_output_integer_variable` do not stop. -/
theorem finishOutcome {min max initval : Int} {args : List Arg} (printed : Res Unit)
    (last : printed = do
      if ¬ (min ≤ initval ∧ initval ≤ max) then trErr args
      intvarOutcome min max initval) :
    ¬ Stops printed ∧ (printed = .ok () ↔ min ≤ initval ∧ initval ≤ max) := by
  subst last
  by_cases inside : min ≤ initval ∧ initval ≤ max
  · rw [if_neg (not_not.mpr inside)]
    rw [intvarOutcome_eq_ok inside]
    exact ⟨not_stops_ok (), fun _ => inside, fun _ => rfl⟩
  · rw [if_pos inside]
    refine ⟨not_stops_trErr args, ?_, fun both => absurd both inside⟩
    intro same
    cases same

theorem stops_variableBounds {t : Ty} : Stops (variableBounds env p t) ↔
    t.kind = .range ∧ BoundsStop env p (Halts env p) t := by
  rw [← stops_computeRangeBounds]
  unfold variableBounds
  split
  · rename_i kind
    rw [kind]
    exact ⟨fun stops => absurd stops (not_stops_ok _), fun both => by cases both.1⟩
  · rename_i kind
    rw [stops_bind]
    constructor
    · rintro (stops | ⟨_, _, stops⟩)
      · exact ⟨kind, stops⟩
      · exact absurd stops (not_stops_ok _)
    · exact fun both => .inl both.2
  · rename_i notRange
    exact ⟨fun stops => absurd stops (not_stops_ok _), fun both => absurd both.1 notRange⟩

/-- The outcome for an integer variable. -/
theorem variableOutcome_eq : variableOutcome env p vname type init =
    (assertThat (isVariableKind (stripLabels type).kind)
        "kind == BOOL || kind == RANGE || kind == CONSTANT" >>= fun _ =>
      variableBounds env p (stripLabels type) >>= fun bounds =>
        initialValue env p init bounds >>= fun initval => do
          if ¬ ((bounds.getD (initval, initval)).1 ≤ initval ∧
              initval ≤ (bounds.getD (initval, initval)).2) then
            trErr [.text "initial value ", .int initval,
              .text " is out of the domain of variable ", .text vname]
          intvarOutcome (bounds.getD (initval, initval)).1 (bounds.getD (initval, initval)).2 initval) :=
  rfl

theorem stops_variableOutcome : Stops (variableOutcome env p vname type init) ↔
    VariableStops env p (Halts env p) (stripLabels type) init := by
  rw [variableOutcome_eq]
  generalize stripLabels type = t
  cases supported : isVariableKind t.kind with
  | false => exact ⟨fun _ => .kind supported, fun _ => ⟨_, rfl, trivial⟩⟩
  | true =>
      change Stops (variableBounds env p t >>= _) ↔ _
      rw [stops_bind, stops_variableBounds]
      constructor
      · rintro (⟨ranged, stops⟩ | ⟨bounds, bounded, stops⟩)
        · exact .bounds ranged stops
        · rcases stops_bind.mp stops with stops | ⟨initval, _, stops⟩
          · cases init with
            | some e => exact .value supported bounded stops
            | none =>
                cases bounds with
                | some range => exact absurd stops (not_stops_ok _)
                | none =>
                    obtain ⟨u, rfl⟩ := variableBounds_none bounded supported
                    exact .uninitialised
          · exact absurd stops (finishOutcome _ rfl).1
      · intro stops
        cases stops with
        | kind unsupported =>
            rw [supported] at unsupported
            cases unsupported
        | bounds ranged stops => exact .inl ⟨ranged, stops⟩
        | uninitialised => exact .inr ⟨none, rfl, _, rfl, trivial⟩
        | value _ bounded stops => exact .inr ⟨_, bounded, stops.bind _⟩

theorem variableOutcome_eq_ok : variableOutcome env p vname type init = .ok () ↔
    ∃ lo hi v, VariableLine env p (stripLabels type) init lo hi v := by
  rw [variableOutcome_eq]
  generalize stripLabels type = t
  constructor
  · intro returned
    obtain ⟨_, kinds, returned⟩ := Res.bind_eq_ok.mp returned
    obtain ⟨bounds, bounded, returned⟩ := Res.bind_eq_ok.mp returned
    obtain ⟨initval, value, returned⟩ := Res.bind_eq_ok.mp returned
    obtain ⟨lower, upper⟩ := (finishOutcome _ rfl).2.mp returned
    cases bounds with
    | none =>
        obtain ⟨u, rfl⟩ := variableBounds_none bounded (assertThat_eq_ok kinds)
        cases init with
        | none => cases value
        | some e => exact ⟨_, _, _, .constant value⟩
    | some range =>
        cases init with
        | none =>
            cases value
            exact ⟨_, _, _, .default bounded (lower.trans upper)⟩
        | some e => exact ⟨_, _, _, .given bounded value lower upper⟩
  · rintro ⟨lo, hi, v, line⟩
    have supported : isVariableKind t.kind = true := kind_of_variableLine line
    refine Res.bind_eq_ok.mpr ⟨(), if_pos supported, ?_⟩
    cases line with
    | constant evaluated =>
        refine Res.bind_eq_ok.mpr ⟨none, rfl, Res.bind_eq_ok.mpr ⟨_, evaluated, ?_⟩⟩
        exact (finishOutcome _ rfl).2.mpr ⟨le_refl _, le_refl _⟩
    | given bounds evaluated lower upper =>
        refine Res.bind_eq_ok.mpr ⟨_, bounds, Res.bind_eq_ok.mpr ⟨_, evaluated, ?_⟩⟩
        exact (finishOutcome _ rfl).2.mpr ⟨lower, upper⟩
    | @default _ lo hi bounds nonempty =>
        refine Res.bind_eq_ok.mpr ⟨_, bounds, Res.bind_eq_ok.mpr ⟨_, rfl, ?_⟩⟩
        refine (finishOutcome _ rfl).2.mpr ?_
        by_cases zero : lo ≤ 0 ∧ 0 ≤ hi
        · rw [if_pos zero]
          exact zero
        · rw [if_neg zero]
          exact ⟨le_refl _, nonempty⟩

end

/-! ## Cells -/

/-- Channels and clocks need no bounds and no initial value. -/
def isEventOrClock (k : Kind) : Bool :=
  k == .prim .channel || k == .pre .broadcast || k == .pre .urgent || k == .prim .clock

section

variable (env : Env) (p : Option Instance) (faulty : Expr → Prop)

/-- All cells of an array are printed. -/
def CellsPrint : Ty → Option Expr → Prop
  | .array sub size, init =>
      ∃ min max, computeRangeBounds env p size = .ok (min, max) ∧ IsInt (max - min + 1) ∧
        (∀ e, init = some e → max - min + 1 ≤ e.getSize) ∧
        (∀ i, min ≤ i → i ≤ max → ∃ cell, initialCell init (i - min) = .ok cell ∧
          CellsPrint sub cell) ∧ max ≠ intMax
  | t, init => isEventOrClock t.kind = true ∨ ∃ lo hi v, VariableLine env p (stripLabels t) init lo hi v

/-- The bounds of an array can be computed, and its initialiser has enough entries. -/
def Entered (size : Ty) (init : Option Expr) (min max : Int) : Prop :=
  computeRangeBounds env p size = .ok (min, max) ∧ IsInt (max - min + 1) ∧
    ∀ e, init = some e → max - min + 1 ≤ e.getSize

/-- What stops the recursion over the cells of an array: the bounds of an index, more
cells than an `int` can count, a cell behind cells that are printed, or the increment
of an index behind the largest `int`. -/
inductive CellsStop : Ty → Option Expr → Prop where
  | cell {t : Ty} {init : Option Expr} (single : t.kind ≠ .array) (number : isEventOrClock t.kind = false)
      (stops : VariableStops env p faulty (stripLabels t) init) : CellsStop t init
  | bounds {sub size : Ty} {init : Option Expr} (stops : BoundsStop env p faulty size) :
      CellsStop (.array sub size) init
  | count {sub size : Ty} {init : Option Expr} {min max : Int}
      (bounds : computeRangeBounds env p size = .ok (min, max)) (overflow : ¬ IsInt (max - min + 1)) :
      CellsStop (.array sub size) init
  | row {sub size : Ty} {init cell : Option Expr} {min max i : Int}
      (entered : Entered env p size init min max) (inside : min ≤ i ∧ i ≤ max)
      (before : ∀ j, min ≤ j → j < i → ∃ cell, initialCell init (j - min) = .ok cell ∧
        CellsPrint env p sub cell)
      (found : initialCell init (i - min) = .ok cell) (stops : CellsStop sub cell) :
      CellsStop (.array sub size) init
  | last {sub size : Ty} {init : Option Expr} {min max : Int} (entered : Entered env p size init min max)
      (before : ∀ j, min ≤ j → j ≤ max → ∃ cell, initialCell init (j - min) = .ok cell ∧
        CellsPrint env p sub cell)
      (limit : max = intMax) : CellsStop (.array sub size) init

end

section

variable {env : Env} {p : Option Instance} {name : String}

theorem cellOutcome_eq {t : Ty} {init : Option Expr} : cellOutcome env p name t init =
    if isEventOrClock t.kind = true then .ok () else variableOutcome env p name t init := by
  unfold cellOutcome
  generalize t.kind = kind
  cases kind with
  | prim k => cases k <;> rfl
  | pre k => cases k <;> rfl
  | _ => rfl

/-- Every cell of an array has an entry in an initialiser that is long enough. -/
theorem initialCell_of_enough {init : Option Expr} {min max i : Int} (lower : min ≤ i) (upper : i ≤ max)
    (enough : ∀ e, init = some e → max - min + 1 ≤ e.getSize) :
    ∃ cell, initialCell init (i - min) = .ok cell := by
  cases init with
  | none => exact ⟨none, rfl⟩
  | some e =>
      have size := enough e rfl
      have bound : (i - min).toNat < e.subs.length := by
        unfold Expr.getSize at size
        omega
      exact ⟨some e.subs[(i - min).toNat], Res.bind_eq_ok.mpr
        ⟨_, orAssert_eq_ok.mpr (List.getElem?_eq_getElem bound), rfl⟩⟩

/-- The initialiser has fewer entries than there are cells. -/
def tooFew (init : Option Expr) (count : Int) : Bool :=
  init.elim false fun e => decide (count > e.getSize)

theorem tooFew_eq_false {init : Option Expr} {count : Int} :
    tooFew init count = false ↔ ∀ e, init = some e → count ≤ e.getSize := by
  cases init with
  | none => exact ⟨fun _ e given => (by cases given), fun _ => rfl⟩
  | some e =>
      unfold tooFew
      rw [Option.elim_some, decide_eq_false_iff_not, Int.not_lt]
      constructor
      · intro enough e' given
        cases given
        exact enough
      · exact fun enough => enough e rfl

/-- The outcome for an array is that of its rows, once it is entered. -/
theorem cellsOutcome_array {sub size : Ty} {init : Option Expr} {S : List Int} :
    ∃ args, cellsOutcome env p name (.array sub size) init S =
      (computeRangeBounds env p size >>= fun bounds => checkedInt (bounds.2 - bounds.1 + 1) >>= fun count =>
        if tooFew init count = true then trErr args
        else forRangeOutcome bounds.1 bounds.2 fun i => initialCell init (i - bounds.1) >>= fun cell =>
          cellsOutcome env p name sub cell (i :: S)) := by
  cases init with
  | none => exact ⟨[], rfl⟩
  | some e =>
      refine ⟨[.text "invalid initializer size for array type: ", .expr e, .text "."], ?_⟩
      refine congrArg (computeRangeBounds env p size >>= ·) (funext fun bounds => ?_)
      refine congrArg (checkedInt (bounds.2 - bounds.1 + 1) >>= ·) (funext fun count => ?_)
      dsimp only
      by_cases few : count > e.getSize
      · have short : tooFew (some e) count = true := decide_eq_true few
        rw [if_pos few, if_pos short]
        rfl
      · have long : tooFew (some e) count = false := decide_eq_false few
        rw [if_neg few, if_neg (by rw [long]; decide)]
        rfl

/-- What entering an array means for its outcome. -/
theorem cellsOutcome_entered {sub size : Ty} {init : Option Expr} {S : List Int} {min max : Int}
    (entered : Entered env p size init min max) : cellsOutcome env p name (.array sub size) init S =
      forRangeOutcome min max fun i => initialCell init (i - min) >>= fun cell =>
        cellsOutcome env p name sub cell (i :: S) := by
  obtain ⟨computed, counted, enough⟩ := entered
  obtain ⟨args, same⟩ := @cellsOutcome_array env p name sub size init S
  rw [same, computed]
  change (checkedInt (max - min + 1) >>= _) = _
  rw [checkedInt_of_isInt counted]
  exact if_neg (by rw [tooFew_eq_false.mpr enough]; decide)

theorem cellsOutcome_eq_ok (t : Ty) (init : Option Expr) (S : List Int) :
    cellsOutcome env p name t init S = .ok () ↔ CellsPrint env p t init := by
  fun_induction cellsOutcome env p name t init S with
  | case1 sub size init S ih =>
      obtain ⟨args, same⟩ := @cellsOutcome_array env p name sub size init S
      have rows (min max : Int) (nonempty : min ≤ max) :
          forRangeOutcome min max (fun i => initialCell init (i - min) >>= fun cell =>
            cellsOutcome env p name sub cell (i :: S)) = .ok () ↔
          (∀ i, min ≤ i → i ≤ max → ∃ cell, initialCell init (i - min) = .ok cell ∧
            CellsPrint env p sub cell) ∧ max ≠ intMax := by
        rw [forRangeOutcome_eq_ok nonempty]
        refine and_congr_left fun _ => forall_congr' fun i => ?_
        refine imp_congr_right fun _ => imp_congr_right fun _ => ?_
        rw [Res.bind_eq_ok]
        exact exists_congr fun cell => and_congr_right fun _ => ih i cell
      constructor
      · intro returned
        have returned := same.symm.trans returned
        obtain ⟨⟨min, max⟩, computed, returned⟩ := Res.bind_eq_ok.mp returned
        obtain ⟨count, counted, returned⟩ := Res.bind_eq_ok.mp returned
        obtain ⟨fits, rfl⟩ := checkedInt_eq_ok_iff.mp counted
        obtain ⟨_, _, _, _, _, nonempty⟩ := bounds_of_computeRangeBounds computed
        split at returned
        · cases returned
        · rename_i enough
          rw [Bool.not_eq_true] at enough
          exact ⟨min, max, computed, fits, tooFew_eq_false.mp enough, (rows min max nonempty).mp returned⟩
      · rintro ⟨min, max, computed, fits, enough, printed⟩
        obtain ⟨_, _, _, _, _, nonempty⟩ := bounds_of_computeRangeBounds computed
        exact (cellsOutcome_entered ⟨computed, fits, enough⟩).trans ((rows min max nonempty).mpr printed)
  | case2 t init S notArray =>
      rw [cellOutcome_eq]
      have single : CellsPrint env p t init ↔ isEventOrClock t.kind = true ∨
          ∃ lo hi v, VariableLine env p (stripLabels t) init lo hi v := by
        cases t with
        | array sub size => exact absurd rfl (notArray sub size)
        | _ => exact Iff.rfl
      rw [single]
      by_cases event : isEventOrClock t.kind = true
      · rw [if_pos event]
        exact ⟨fun _ => .inl event, fun _ => rfl⟩
      · rw [if_neg event, variableOutcome_eq_ok]
        exact ⟨.inr, fun printed => printed.resolve_left event⟩

theorem stops_cellsOutcome (t : Ty) (init : Option Expr) (S : List Int) :
    Stops (cellsOutcome env p name t init S) ↔ CellsStop env p (Halts env p) t init := by
  fun_induction cellsOutcome env p name t init S with
  | case1 sub size init S ih =>
      obtain ⟨args, same⟩ := @cellsOutcome_array env p name sub size init S
      have printed (min j : Int) : (initialCell init (j - min) >>= fun cell =>
            cellsOutcome env p name sub cell (j :: S)) = .ok () ↔
          ∃ cell, initialCell init (j - min) = .ok cell ∧ CellsPrint env p sub cell := by
        rw [Res.bind_eq_ok]
        exact exists_congr fun cell => and_congr_right fun _ => cellsOutcome_eq_ok sub cell (j :: S)
      change Stops (cellsOutcome env p name (.array sub size) init S) ↔ _
      constructor
      · intro stops
        rw [same] at stops
        rcases stops_bind.mp stops with stops | ⟨⟨min, max⟩, computed, stops⟩
        · exact .bounds (stops_computeRangeBounds.mp stops)
        · rcases stops_bind.mp stops with stops | ⟨count, counted, stops⟩
          · exact .count computed (stops_checkedInt.mp stops)
          · obtain ⟨fits, rfl⟩ := checkedInt_eq_ok_iff.mp counted
            obtain ⟨_, _, _, _, _, nonempty⟩ := bounds_of_computeRangeBounds computed
            split at stops
            · exact absurd stops (not_stops_trErr args)
            · rename_i enough
              rw [Bool.not_eq_true] at enough
              have entered : Entered env p size init min max :=
                ⟨computed, fits, tooFew_eq_false.mp enough⟩
              rcases (stops_forRangeOutcome nonempty).mp stops with
                ⟨i, inside, before, stops⟩ | ⟨before, limit⟩
              · obtain ⟨cell, found⟩ := initialCell_of_enough inside.1 inside.2 entered.2.2
                have stops : Stops (initialCell init (i - min) >>= fun cell =>
                  cellsOutcome env p name sub cell (i :: S)) := stops
                rw [found] at stops
                exact .row entered inside (fun j lower less => (printed min j).mp (before j lower less))
                  found ((ih i cell).mp stops)
              · exact .last entered (fun j lower upper => (printed min j).mp (before j lower upper)) limit
      · intro stops
        cases stops with
        | cell single => exact absurd rfl single
        | bounds stops =>
            rw [same]
            exact (stops_computeRangeBounds.mpr stops).bind _
        | count computed overflow =>
            rw [same, computed]
            exact (stops_checkedInt.mpr overflow).bind _
        | @row _ _ _ cell min max i entered inside before found stops =>
            rw [cellsOutcome_entered entered]
            refine (stops_forRangeOutcome (inside.1.trans inside.2)).mpr (.inl ⟨i, inside, ?_, ?_⟩)
            · exact fun j lower less => (printed min j).mpr (before j lower less)
            · rw [found]
              exact (ih i cell).mpr stops
        | @last _ _ _ min max entered before limit =>
            obtain ⟨_, _, _, _, _, nonempty⟩ := bounds_of_computeRangeBounds entered.1
            rw [cellsOutcome_entered entered]
            exact (stops_forRangeOutcome nonempty).mpr
              (.inr ⟨fun j lower upper => (printed min j).mpr (before j lower upper), limit⟩)
  | case2 t init S notArray =>
      rw [cellOutcome_eq]
      by_cases event : isEventOrClock t.kind = true
      · rw [if_pos event]
        refine ⟨fun stops => absurd stops (not_stops_ok ()), fun stops => ?_⟩
        cases stops with
        | cell _ number =>
            rw [event] at number
            cases number
        | _ => exact absurd rfl (notArray _ _)
      · rw [if_neg event, stops_variableOutcome]
        refine ⟨fun stops => .cell (fun kind => ?_) (Bool.eq_false_iff.mpr event) stops, fun stops => ?_⟩
        · cases t with
          | array sub size => exact notArray sub size rfl
          | _ => cases kind
        · cases stops with
          | cell _ _ stops => exact stops
          | _ => exact absurd rfl (notArray _ _)

end

end Utot
