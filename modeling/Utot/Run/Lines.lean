import Utot.Layout.Types
import Utot.Run.Selections

/-!
# The lines of a declaration

The lines each function of the declaration pass adds when it returns, and what
it has evaluated to get them.
-/

namespace Utot

open Utap Library Tchecker

/-! ## Integer variables -/

/-- What `s_output_integer_variable` prints for a type without outer labels: the
bounds and the initial value, and where they come from. -/
inductive VariableLine (env : Env) (p : Option Instance) : Ty → Option Expr → Int → Int → Int → Prop where
  | constant {t : Ty} {e : Expr} {v : Int} (evaluated : evalIntegerConstant env p e = .ok v) :
      VariableLine env p (.pre .constant t) (some e) v v v
  | given {t : Ty} {e : Expr} {lo hi v : Int} (bounds : variableBounds env p t = .ok (some (lo, hi)))
      (evaluated : evalIntegerConstant env p e = .ok v) (lower : lo ≤ v) (upper : v ≤ hi) :
      VariableLine env p t (some e) lo hi v
  | default {t : Ty} {lo hi : Int} (bounds : variableBounds env p t = .ok (some (lo, hi)))
      (nonempty : lo ≤ hi) :
      VariableLine env p t none lo hi (if lo ≤ 0 ∧ 0 ≤ hi then 0 else lo)

section

variable {env : Env} {p : Option Instance}

theorem quiet_commentln (args : List Arg) : Keeps (sameOutput TrState.lines) (commentln args) :=
  Keeps.update fun st => st.lines_comment args

theorem quiet_message (verboseLevel level : Nat) (args : List Arg) :
    Keeps (sameOutput TrState.lines) (msg verboseLevel level args) :=
  Keeps.branch (Keeps.update fun st => st.lines_message level args) (Keeps.ret _)

theorem appends_clock (id : String) (size : Int) :
    Appends TrState.lines (clock id size) fun _ ls => ls = [.clock id size] :=
  Appends.update [.clock id size] (fun st => st.lines_writeLine _) rfl

theorem assertThat_eq_ok {condition : Bool} {what : String} {u : Unit}
    (passed : assertThat condition what = .ok u) : condition = true := by
  unfold assertThat at passed
  split at passed
  · assumption
  · cases passed

theorem appends_intvar (min max init : Int) (id : String) (size : Int) :
    Appends TrState.lines (intvar min max init id size) fun _ ls =>
      ls = [.intvar min max init id size] ∧ min ≤ init ∧ init ≤ max := by
  refine Appends.liftBind fun _ _ => Appends.liftBind fun _ inside => ?_
  have bounds := assertThat_eq_ok inside
  rw [Bool.and_eq_true, decide_eq_true_iff, decide_eq_true_iff] at bounds
  exact Appends.update [.intvar min max init id size] (fun st => st.lines_writeLine _) ⟨rfl, bounds⟩

/-- A type with bounds of its own is no constant. -/
theorem variableBounds_none {t : Ty} (none' : variableBounds env p t = .ok none)
    (kinds : (t.kind == .prim .bool || t.kind == .range || t.kind == .pre .constant) = true) :
    ∃ u, t = .pre .constant u := by
  unfold variableBounds at none'
  split at none'
  · cases none'
  · obtain ⟨bounds, _, later⟩ := Res.bind_eq_ok.mp none'
    cases later
  · rename_i notBool notRange
    cases t with
    | pre k u =>
        cases k with
        | constant => exact ⟨u, rfl⟩
        | _ => cases kinds
    | prim k =>
        cases k with
        | bool => exact absurd rfl notBool
        | _ => cases kinds
    | range t lower upper => exact absurd rfl notRange
    | _ => cases kinds

theorem appends_integerVariable (vname : String) (type : Ty) (init : Option Expr) :
    Appends TrState.lines (sOutputIntegerVariable env p vname type init) fun _ ls =>
      ∃ lo hi v, ls = [.intvar lo hi v vname 1] ∧ VariableLine env p (stripLabels type) init lo hi v := by
  refine Appends.liftBind fun _ kinds => Appends.liftBind fun bounds bounded => ?_
  have finish : ∀ initval : Int, Appends TrState.lines (do
      if ¬ ((bounds.getD (initval, initval)).1 ≤ initval ∧
          initval ≤ (bounds.getD (initval, initval)).2) then
        fromExcept (trErr [.text "initial value ", .int initval,
          .text " is out of the domain of variable ", .text vname])
      intvar (bounds.getD (initval, initval)).1 (bounds.getD (initval, initval)).2 initval vname 1 :
        Tr Unit) fun _ ls =>
        ls = [.intvar (bounds.getD (initval, initval)).1 (bounds.getD (initval, initval)).2 initval
            vname 1] ∧
          (bounds.getD (initval, initval)).1 ≤ initval ∧
          initval ≤ (bounds.getD (initval, initval)).2 := by
    intro initval
    split
    · exact Appends.liftBind fun _ failed => by cases failed
    · exact appends_intvar _ _ _ _ _
  cases init with
  | some e =>
      refine Appends.liftBind fun v evaluated => (finish v).weaken fun _ ls printed => ?_
      obtain ⟨rfl, lower, upper⟩ := printed
      cases bounds with
      | none =>
          obtain ⟨u, constant⟩ := variableBounds_none bounded (assertThat_eq_ok kinds)
          rw [constant]
          exact ⟨_, _, _, rfl, .constant evaluated⟩
      | some range => exact ⟨_, _, _, rfl, .given bounded evaluated lower upper⟩
  | none =>
      cases bounds with
      | none => exact Appends.liftBind fun _ failed => by cases failed
      | some range =>
          refine Appends.silentBind (quiet_message _ _ _) fun _ => ?_
          refine (finish (if range.1 ≤ 0 ∧ 0 ≤ range.2 then 0 else range.1)).weaken fun _ ls printed => ?_
          obtain ⟨rfl, lower, upper⟩ := printed
          exact ⟨_, _, _, rfl, .default bounded (le_trans lower upper)⟩

/-! ## Flattened arrays -/

/-- The lines of one cell: none for a channel, a clock, or an integer variable. -/
inductive CellLine (env : Env) (p : Option Instance) (name : String) : Ty → Option Expr → List Line → Prop where
  | channel {t : Ty} {init : Option Expr}
      (kind : t.kind = .prim .channel ∨ t.kind = .pre .broadcast ∨ t.kind = .pre .urgent) :
      CellLine env p name t init []
  | clock {t : Ty} {init : Option Expr} (kind : t.kind = .prim .clock) :
      CellLine env p name t init [.clock name 1]
  | integer {t : Ty} {init : Option Expr} {lo hi v : Int}
      (printed : VariableLine env p (stripLabels t) init lo hi v) :
      CellLine env p name t init [.intvar lo hi v name 1]

/-- The lines of the cells of an array, row by row. -/
def CellLines (env : Env) (p : Option Instance) (name : String) :
    Ty → Option Expr → List Int → List Line → Prop
  | .array sub size, init, S, ls =>
      ∃ min max blocks, computeRangeBounds env p size = .ok (min, max) ∧
        (∀ e, init = some e → max - min + 1 ≤ e.getSize) ∧
        List.Forall₂ (fun i block => ∃ cell, initialCell init (i - min) = .ok cell ∧
          CellLines env p name sub cell (i :: S) block) (intRange min max) blocks ∧
        ls = blocks.flatten
  | t, init, S, ls => CellLine env p (cellName name S) t init ls

theorem appends_declareCell (name : String) (type : Ty) (init : Option Expr) :
    Appends TrState.lines (declareCell env p name type init) fun _ ls =>
      CellLine env p name type init ls := by
  unfold declareCell
  split
  · rename_i kind
    exact Appends.silent (quiet_commentln _) fun _ => .channel (.inl kind)
  · rename_i kind
    exact Appends.silent (quiet_commentln _) fun _ => .channel (.inr (.inl kind))
  · rename_i kind
    exact Appends.silent (quiet_commentln _) fun _ => .channel (.inr (.inr kind))
  · rename_i kind
    exact (appends_clock _ _).weaken fun _ ls line => by rw [line]; exact .clock kind
  · refine (appends_integerVariable _ _ _).weaken fun _ ls line => ?_
    obtain ⟨lo, hi, v, rfl, printed⟩ := line
    exact .integer printed

theorem appends_arrayElements (arrayname : String) (type : Ty) (init : Option Expr) (S : List Int) :
    Appends TrState.lines (sEnumerateArrayElementsDecl env p arrayname type init S) fun _ ls =>
      CellLines env p arrayname type init S ls := by
  fun_induction sEnumerateArrayElementsDecl env p arrayname type init S with
  | case1 sub size init S ih =>
      refine Appends.liftBind fun bounds bounded => Appends.liftBind fun count counted => ?_
      obtain ⟨min, max⟩ := bounds
      have rows : Appends TrState.lines (forRange min max fun i => do
          let cell ← fromExcept (initialCell init (i - min))
          sEnumerateArrayElementsDecl env p arrayname sub cell (i :: S)) fun _ ls =>
            ∃ blocks, List.Forall₂ (fun i block => ∃ cell, initialCell init (i - min) = .ok cell ∧
              CellLines env p arrayname sub cell (i :: S) block) (intRange min max) blocks ∧
                ls = blocks.flatten :=
        appends_forRange fun i _ _ => Appends.liftBind fun cell found =>
          (ih i cell).weaken fun _ _ lines => ⟨cell, found, lines⟩
      have total := checkedInt_eq_ok counted
      subst total
      cases init with
      | none =>
          refine rows.weaken fun _ ls printed => ?_
          obtain ⟨blocks, rounds, flat⟩ := printed
          exact ⟨min, max, blocks, bounded, fun _ given => (by cases given), rounds, flat⟩
      | some e =>
          dsimp only
          split
          · exact Appends.liftBind fun _ failed => by cases failed
          · rename_i enough
            refine rows.weaken fun _ ls printed => ?_
            obtain ⟨blocks, rounds, flat⟩ := printed
            refine ⟨min, max, blocks, bounded, fun e' given => ?_, rounds, flat⟩
            cases given
            exact Int.not_lt.mp enough
  | case2 t init S noArray =>
      refine (appends_declareCell _ _ _).weaken fun _ ls line => ?_
      cases t with
      | array sub size => exact absurd rfl (noArray sub size)
      | _ => exact line

/-! ## One-dimensional arrays -/

/-- What `s_declare_one_dim_array` prints: the bounds of the cells and their
common initial value. -/
inductive ArrayLine (env : Env) (p : Option Instance) (eltype : Ty) : Option Expr → Int → Int → Int → Prop where
  | given {e : Expr} {lo hi v : Int} (bounds : elementBounds env p eltype = .ok (lo, hi))
      (evaluated : evalIntegerConstant env p e = .ok v) (lower : lo ≤ v) (upper : v ≤ hi) :
      ArrayLine env p eltype (some e) lo hi v
  | default {lo hi : Int} (bounds : elementBounds env p eltype = .ok (lo, hi)) (nonempty : lo ≤ hi) :
      ArrayLine env p eltype none lo hi (if 0 ≤ lo ∨ hi ≤ 0 then lo else 0)

theorem appends_oneDimArray (vname : String) (size : Int) (eltype : Ty) (init : Option Expr) :
    Appends TrState.lines (sDeclareOneDimArray env p vname size eltype init) fun _ ls =>
      ∃ lo hi v, ls = [.intvar lo hi v vname size] ∧ ArrayLine env p eltype init lo hi v := by
  refine Appends.silentBind (quiet_commentln _) fun _ => Appends.liftBind fun bounds bounded => ?_
  obtain ⟨lo, hi⟩ := bounds
  cases init with
  | none =>
      dsimp only
      rw [pure_bind]
      refine Appends.branch (fun _ => ?_) fun _ => Appends.lift fun _ failed => by cases failed
      refine (appends_intvar _ _ _ _ _).weaken fun _ ls printed => ?_
      obtain ⟨rfl, lower, upper⟩ := printed
      exact ⟨_, _, _, rfl, .default bounded (le_trans lower upper)⟩
  | some e =>
      refine Appends.liftBind fun v evaluated => ?_
      refine Appends.branch (fun _ => ?_) fun _ => Appends.lift fun _ failed => by cases failed
      refine (appends_intvar _ _ _ _ _).weaken fun _ ls printed => ?_
      obtain ⟨rfl, lower, upper⟩ := printed
      exact ⟨_, _, _, rfl, .given bounded evaluated lower upper⟩

/-- The lines of an array: one when TChecker has such an array, otherwise one for
each cell. -/
inductive ArrayLines (env : Env) (p : Option Instance) (name : String) (t : Ty) (init : Option Expr) :
    List Line → Prop where
  | clocks {min max : Int} {cell : Ty} {val : Option Expr}
      (whole : oneDimDeclaration env p t init = .ok (some (min, max, cell, val)))
      (isClock : t.stripArray.isClock = true) :
      ArrayLines env p name t init [.clock name (max - min + 1)]
  | integers {min max lo hi v : Int} {cell : Ty} {val : Option Expr}
      (whole : oneDimDeclaration env p t init = .ok (some (min, max, cell, val)))
      (noClock : t.stripArray.isClock = false) (printed : ArrayLine env p cell val lo hi v) :
      ArrayLines env p name t init [.intvar lo hi v name (max - min + 1)]
  | cells {ls : List Line} (split : oneDimDeclaration env p t init = .ok none)
      (printed : CellLines env p name t init [] ls) : ArrayLines env p name t init ls

theorem appends_declareArray (vname : String) (type : Ty) (init : Option Expr) :
    Appends TrState.lines (declareArray env p vname type init) fun _ ls =>
      ArrayLines env p vname type init ls := by
  refine Appends.liftBind fun answer decided => ?_
  cases answer with
  | none => exact (appends_arrayElements _ _ _ _).weaken fun _ _ printed => .cells decided printed
  | some whole =>
      obtain ⟨min, max, cell, val⟩ := whole
      refine Appends.liftBind fun size counted => ?_
      rw [checkedInt_eq_ok counted]
      refine Appends.branch (fun isClock => ?_) fun noClock => ?_
      · refine Appends.silentBind (quiet_commentln _) fun _ => (appends_clock _ _).weaken fun _ ls line => ?_
        rw [line]
        exact .clocks decided isClock
      · refine (appends_oneDimArray _ _ _ _).weaken fun _ ls line => ?_
        obtain ⟨lo, hi, v, rfl, printed⟩ := line
        exact .integers decided (Bool.eq_false_iff.mpr noClock) printed

/-! ## Declarations -/

/-- The lines of a variable of a type without outer labels. -/
inductive DeclarationLines (env : Env) (p : Option Instance) (name : String) :
    Ty → Option Expr → List Line → Prop where
  | integer {t : Ty} {init : Option Expr} {lo hi v : Int}
      (kind : t.kind = .pre .constant ∨ t.kind = .prim .bool ∨ t.kind = .range)
      (printed : VariableLine env p t init lo hi v) :
      DeclarationLines env p name t init [.intvar lo hi v name 1]
  | channel {t : Ty} {init : Option Expr}
      (kind : t.kind = .prim .channel ∨ t.kind = .pre .broadcast ∨ t.kind = .pre .urgent) :
      DeclarationLines env p name t init []
  | clock {t : Ty} {init : Option Expr} (kind : t.kind = .prim .clock) :
      DeclarationLines env p name t init [.clock name 1]
  | array {t : Ty} {init : Option Expr} {ls : List Line} (kind : t.kind = .array)
      (printed : ArrayLines env p name t init ls) : DeclarationLines env p name t init ls

theorem stripLabels_idem (t : Ty) : stripLabels (stripLabels t) = stripLabels t := by
  fun_induction stripLabels t with
  | case1 name t ih => exact ih
  | case2 t noLabel => exact stripLabels.eq_2 t noLabel

theorem appends_declareVariable (ctx : ContextPrefix) (s : Symbol) :
    Appends TrState.lines (declareVariable env p ctx s) fun _ ls =>
      DeclarationLines env p (addPrefix ctx (env.getName s)) (stripLabels (env.getType s))
        (env.initialiser s) ls := by
  refine Appends.silentBind (quiet_commentln _) fun _ => ?_
  have integer : (stripLabels (env.getType s)).kind = .pre .constant ∨
      (stripLabels (env.getType s)).kind = .prim .bool ∨ (stripLabels (env.getType s)).kind = .range →
      Appends TrState.lines (sOutputIntegerVariable env p (addPrefix ctx (env.getName s))
        (stripLabels (env.getType s)) (env.initialiser s)) fun _ ls =>
          DeclarationLines env p (addPrefix ctx (env.getName s)) (stripLabels (env.getType s))
            (env.initialiser s) ls := by
    intro kind
    refine (appends_integerVariable _ _ _).weaken fun _ ls line => ?_
    obtain ⟨lo, hi, v, rfl, printed⟩ := line
    rw [stripLabels_idem] at printed
    exact .integer kind printed
  dsimp only
  split
  · rename_i kind
    exact integer (.inl kind)
  · rename_i kind
    exact integer (.inr (.inl kind))
  · rename_i kind
    exact integer (.inr (.inr kind))
  · rename_i kind
    exact Appends.silent (quiet_commentln _) fun _ => .channel (.inl kind)
  · rename_i kind
    exact Appends.silent (quiet_commentln _) fun _ => .channel (.inr (.inl kind))
  · rename_i kind
    exact Appends.silent (quiet_commentln _) fun _ => .channel (.inr (.inr kind))
  · rename_i kind
    exact (appends_clock _ _).weaken fun _ ls line => by rw [line]; exact .clock kind
  · rename_i kind
    exact (appends_declareArray _ _ _).weaken fun _ _ printed => .array kind printed
  · exact Appends.lift fun _ failed => by cases failed

end

end Utot
