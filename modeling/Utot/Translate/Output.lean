import Utot.Library.Exec
import Utot.Tchecker.Lines
import Utot.Translate.Faults
import Utot.Translate.Tables

/-!
# The outputter

The functions of `tchecker::outputter` and the message functions of `utot.hh`,
over one state: everything written so far in the order it was written, the flag
of the event `tau`, the tables of events, and the two variables the translator
passes around by reference (the local events of the process being translated,
and whether the process `Stuck` has still to be added).
-/

namespace Utot

open Library Tchecker

/-- One write. -/
inductive Output where
  /-- A line of the model. -/
  | line (line : Line)
  /-- A line that starts with `#`. -/
  | comment (args : List Arg)
  | blank
  /-- A message of the given level, on standard output. -/
  | message (level : Nat) (args : List Arg)

/-- The state of a translation. -/
structure TrState where
  trace : List Output
  tauGenerated : Bool
  events : GlobalEvents
  localEvents : EventSet
  addStuckProcess : Bool

/-- The state `translate_model` starts in. -/
def TrState.initial : TrState := ⟨[], false, .empty, ∅, true⟩

/-- Functions that write to the outputter. -/
abbrev Tr (α : Type) : Type := Prog Fault TrState α

/-- The lines of a trace. -/
def linesOf (trace : List Output) : List Line :=
  trace.filterMap fun
    | .line l => some l
    | _ => none

/-- The lines written so far. -/
def TrState.lines (s : TrState) : List Line := linesOf s.trace

namespace TrState

/-- The state after one more write. -/
def write (s : TrState) (o : Output) : TrState := { s with trace := s.trace ++ [o] }

/-- The state after one more line. -/
def writeLine (s : TrState) (l : Line) : TrState := s.write (.line l)

@[simp] theorem write_trace (s : TrState) (o : Output) : (s.write o).trace = s.trace ++ [o] := rfl
@[simp] theorem write_tauGenerated (s : TrState) (o : Output) :
    (s.write o).tauGenerated = s.tauGenerated := rfl
@[simp] theorem write_events (s : TrState) (o : Output) : (s.write o).events = s.events := rfl
@[simp] theorem write_localEvents (s : TrState) (o : Output) :
    (s.write o).localEvents = s.localEvents := rfl
@[simp] theorem write_addStuckProcess (s : TrState) (o : Output) :
    (s.write o).addStuckProcess = s.addStuckProcess := rfl
@[simp] theorem writeLine_events (s : TrState) (l : Line) : (s.writeLine l).events = s.events := rfl

@[simp] theorem lines_writeLine (s : TrState) (l : Line) :
    (s.writeLine l).lines = s.lines ++ [l] := by
  simp [lines, linesOf, writeLine]

@[simp] theorem lines_comment (s : TrState) (args : List Arg) :
    (s.write (.comment args)).lines = s.lines := by
  simp [lines, linesOf]

@[simp] theorem lines_blank (s : TrState) : (s.write .blank).lines = s.lines := by
  simp [lines, linesOf]

@[simp] theorem lines_message (s : TrState) (level : Nat) (args : List Arg) :
    (s.write (.message level args)).lines = s.lines := by
  simp [lines, linesOf]

end TrState

/-! ## Writing -/

def write (o : Output) : Tr Unit := modify fun s => s.write o

def writeLine (l : Line) : Tr Unit := modify fun s => s.writeLine l

/-- `outputter::commentln`. -/
def commentln (args : List Arg) : Tr Unit := write (.comment args)

/-- `VL_WARNING`, `VL_PROGRESS` and `VL_INFO`. -/
def vlWarning : Nat := 0
def vlProgress : Nat := 1
def vlInfo : Nat := 2

/-- `msg<level>`. -/
def msg (verboseLevel level : Nat) (args : List Arg) : Tr Unit :=
  if level < verboseLevel then write (.message level args) else pure ()

/-- `warn`. -/
def warn (verboseLevel : Nat) (args : List Arg) : Tr Unit :=
  msg verboseLevel vlWarning (.text "warning: " :: args)

/-- An `assert` of a function that writes. -/
def assertTr (condition : Bool) (what : String) : Tr Unit := fromExcept (assertThat condition what)

/-- `outputter::clock`. -/
def clock (id : String) (size : Int) : Tr Unit := writeLine (.clock id size)

/-- `outputter::intvar`. -/
def intvar (min max init : Int) (id : String) (size : Int) : Tr Unit := do
  assertTr (min ≤ max) "min <= max"
  assertTr (min ≤ init && init ≤ max) "min <= init && init <= max"
  writeLine (.intvar min max init id size)

/-- `outputter::edge`. -/
def edge (process src tgt event : String) (attr : Attributes) : Tr Unit := do
  let s ← get
  if event = tauEvent ∧ ¬ s.tauGenerated then
    commentln [.text "global event for Uppaal unlabelled edges"]
    writeLine (.event tauEvent)
    modify fun s => { s with tauGenerated := true }
  writeLine (.edge process src tgt event attr.toList)

/-- `outputter::sync`. -/
def sync (sv : SyncMap) : Tr Unit := do
  assertTr (2 ≤ sv.size) "sv.size () >= 2"
  writeLine (.sync (elements sv))

end Utot
