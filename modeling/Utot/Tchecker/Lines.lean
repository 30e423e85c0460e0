import Std.Data.TreeMap
import Mathlib.Data.String.Basic

/-!
# Lines of the TChecker format

One constructor for each function of `tchecker::outputter` that writes a line
other than a comment, with the arguments of the call; `render` is the text.
-/

namespace Utot.Tchecker

/-- `TAU_EVENT`. -/
def tauEvent : String := "tau"

/-- `attributes_t`, in the order a `std::map` is walked. -/
abbrev Attributes := Std.TreeMap String String

/-- The argument of `sync`: the event of each process, and whether it is weak. -/
abbrev SyncMap := Std.TreeMap String (String × Bool)

/-- One element `P@e` or `P@e?` of a synchronisation vector. -/
structure SyncElement where
  process : String
  event : String
  weak : Bool
  deriving DecidableEq, Repr

/-- The elements of a `sync` line, by process name. -/
abbrev SyncVector := List SyncElement

/-- A line the outputter writes. -/
inductive Line where
  | system (id : String)
  | process (id : String)
  | event (id : String)
  | clock (id : String) (size : Int)
  | intvar (min max init : Int) (id : String) (size : Int)
  | location (process id : String) (attr : List (String × String))
  | edge (process src tgt event : String) (attr : List (String × String))
  | sync (vector : SyncVector)
  deriving DecidableEq, Repr

/-- The elements `sync` walks through. -/
def elements (sv : SyncMap) : SyncVector :=
  sv.toList.map fun entry => ⟨entry.1, entry.2.1, entry.2.2⟩

/-- `attributes`. -/
def renderAttributes (attr : List (String × String)) : String :=
  "\x7b" ++ ":".intercalate (attr.map fun entry => entry.1 ++ ":" ++ entry.2) ++ "\x7d"

/-- `sync_element`. -/
def renderElement (element : SyncElement) : String :=
  ":" ++ element.process ++ "@" ++ element.event ++ if element.weak then "?" else ""

/-- The text of a line, without its end. -/
def render : Line → String
  | .system id => "system:" ++ id
  | .process id => "process:" ++ id
  | .event id => "event:" ++ id
  | .clock id size => "clock:" ++ toString size ++ ":" ++ id
  | .intvar min max init id size =>
      "int:" ++ toString size ++ ":" ++ toString min ++ ":" ++ toString max ++ ":" ++
        toString init ++ ":" ++ id
  | .location process id attr => "location:" ++ process ++ ":" ++ id ++ renderAttributes attr
  | .edge process src tgt event attr =>
      "edge:" ++ process ++ ":" ++ src ++ ":" ++ tgt ++ ":" ++ event ++ renderAttributes attr
  | .sync vector => "sync" ++ String.join (vector.map renderElement)

end Utot.Tchecker
