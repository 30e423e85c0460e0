import Utot.Library.Alike
import Utot.Run.Faults

/-!
# Two translations side by side

The same lines and comments are written on both sides; messages may be written
on one side only.
-/

namespace Utot

open Utap Library Tchecker

/-- A relation between states that equal writes keep and messages do not matter to. -/
structure SideBySide (R : TrState → TrState → Prop) : Prop where
  write : ∀ {st st'}, R st st' → ∀ o, R (st.write o) (st'.write o)
  left : ∀ {st st'}, R st st' → ∀ level args, R (st.write (.message level args)) st'
  right : ∀ {st st'}, R st st' → ∀ level args, R st (st'.write (.message level args))

section

variable {R : TrState → TrState → Prop}

theorem alike_forRange {min max : Int} {body body' : Int → Tr Unit}
    (round : ∀ i ∈ intRange min max, Alike R (body i) (body' i)) :
    Alike R (forRange min max body) (forRange min max body') :=
  Alike.bind (Alike.forM round) fun _ => Alike.branch (fun _ => Alike.lift _) fun _ => Alike.ret _

variable (sides : SideBySide R)

include sides

theorem alike_write (o : Output) : Alike R (write o) (write o) :=
  Alike.update fun _ _ related => sides.write related o

theorem alike_line (l : Line) : Alike R (writeLine l) (writeLine l) := alike_write sides (.line l)

theorem alike_comment (args : List Arg) : Alike R (commentln args) (commentln args) :=
  alike_write sides (.comment args)

/-- A message, whether it is written or not. -/
theorem alike_mute (verboseLevel level : Nat) (args : List Arg) :
    Alike R (msg verboseLevel level args) (pure ()) := by
  unfold msg
  split
  · exact fun st st' related => ⟨rfl, sides.left related level args⟩
  · exact Alike.ret _

/-- The same message at two levels of verbosity. -/
theorem alike_msg (verboseLevel verboseLevel' level : Nat) (args : List Arg) :
    Alike R (msg verboseLevel level args) (msg verboseLevel' level args) := by
  unfold msg
  split
  · split
    · exact alike_write sides _
    · exact fun st st' related => ⟨rfl, sides.left related level args⟩
  · split
    · exact fun st st' related => ⟨rfl, sides.right related level args⟩
    · exact Alike.ret _

theorem alike_intvar (min max init : Int) (id : String) (size : Int) :
    Alike R (intvar min max init id size) (intvar min max init id size) :=
  Alike.liftBind fun _ _ => Alike.liftBind fun _ _ => alike_line sides _

/-! ## Variables -/

variable {env env' : Env} {p : Option Instance}
  (values : evalIntegerConstant env' p = evalIntegerConstant env p)

include values

/-- Only the kind of the type and its bounds are looked at. -/
theorem alike_integerVariable {t t' : Ty} (vname : String) (init : Option Expr)
    (kinds : isVariableKind (stripLabels t').kind = isVariableKind (stripLabels t).kind)
    (bounds : variableBounds env' p (stripLabels t') = variableBounds env p (stripLabels t)) :
    Alike R (sOutputIntegerVariable env' p vname t' init) (sOutputIntegerVariable env p vname t init) := by
  unfold sOutputIntegerVariable
  unfold isVariableKind at kinds
  simp only [kinds, bounds]
  refine Alike.liftBind fun _ _ => Alike.liftBind fun bounds _ => ?_
  have finish : ∀ initval : Int, Alike R (do
      if ¬ ((bounds.getD (initval, initval)).1 ≤ initval ∧
          initval ≤ (bounds.getD (initval, initval)).2) then
        fromExcept (trErr [.text "initial value ", .int initval,
          .text " is out of the domain of variable ", .text vname])
      intvar (bounds.getD (initval, initval)).1 (bounds.getD (initval, initval)).2 initval vname 1 :
        Tr Unit) (do
      if ¬ ((bounds.getD (initval, initval)).1 ≤ initval ∧
          initval ≤ (bounds.getD (initval, initval)).2) then
        fromExcept (trErr [.text "initial value ", .int initval,
          .text " is out of the domain of variable ", .text vname])
      intvar (bounds.getD (initval, initval)).1 (bounds.getD (initval, initval)).2 initval vname 1 :
        Tr Unit) := by
    intro initval
    split
    · exact Alike.liftBind fun _ _ => alike_intvar sides _ _ _ _ _
    · exact alike_intvar sides _ _ _ _ _
  cases init with
  | some e =>
      rw [values]
      exact Alike.liftBind fun v _ => finish v
  | none =>
      cases bounds with
      | none => exact Alike.liftBind fun _ _ => finish _
      | some bounds => exact Alike.bind (alike_msg sides _ _ _ _) fun _ => finish _

theorem alike_oneDimArray (vname : String) (size : Int) (cell : Ty) (init : Option Expr) :
    Alike R (sDeclareOneDimArray env' p vname size cell init)
      (sDeclareOneDimArray env p vname size cell init) := by
  have bounds : elementBounds env' p cell = elementBounds env p cell := by
    unfold elementBounds
    rw [values]
  unfold sDeclareOneDimArray
  rw [bounds]
  refine Alike.bind (alike_comment sides _) fun _ => Alike.liftBind fun bounds _ => ?_
  obtain ⟨lo, hi⟩ := bounds
  cases init with
  | none => exact Alike.branch (fun _ => alike_intvar sides _ _ _ _ _) fun _ => Alike.lift _
  | some e =>
      rw [values]
      exact Alike.liftBind fun v _ =>
        Alike.branch (fun _ => alike_intvar sides _ _ _ _ _) fun _ => Alike.lift _

end

end Utot
