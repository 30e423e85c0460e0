import Std.Data.TreeMap
import Std.Data.TreeSet
import Mathlib.Data.String.Basic

/-!
# The tables of events

`global_events_t`: for each channel label the processes that emit, receive or
share it, for each process the labels its IO sections list, the events already
introduced and the labels of broadcast channels.  An entry is created together
with its first process, so no label is mapped to an empty set.
-/

namespace Utot

open Std

/-- `event_set_t`. -/
abbrev EventSet := TreeSet String

/-- `proc_set_t`. -/
abbrev ProcSet := TreeSet String

/-- `std::map<event_label_t, proc_set_t>` whose entries hold at least one process. -/
structure ProcTable where
  map : TreeMap String ProcSet
  inhabited : ∀ (label : String) (procs : ProcSet), map[label]? = some procs → procs.isEmpty = false

namespace ProcTable

def empty : ProcTable := ⟨∅, by simp⟩

instance : Inhabited ProcTable := ⟨empty⟩

/-- The processes recorded for a label; none when there is no entry. -/
def procs (table : ProcTable) (label : String) : ProcSet := table.map[label]?.getD ∅

/-- The end of `s_build_edge_label`: create the entry if it is missing, then
insert the process. -/
def record (table : ProcTable) (label process : String) : ProcTable where
  map := table.map.insert label ((table.procs label).insert process)
  inhabited := by
    intro other procs found
    rw [TreeMap.getElem?_insert] at found
    split at found
    · cases found
      simp
    · exact table.inhabited other procs found

/-- `erase`. -/
def erase (table : ProcTable) (label : String) : ProcTable where
  map := table.map.erase label
  inhabited := by
    intro other procs found
    rw [TreeMap.getElem?_erase] at found
    split at found
    · cases found
    · exact table.inhabited other procs found

theorem mem_procs_iff {table : ProcTable} {label process : String} :
    process ∈ table.procs label ↔ ∃ procs, table.map[label]? = some procs ∧ process ∈ procs := by
  unfold procs
  cases found : table.map[label]? with
  | none => simp
  | some procs => simp

@[simp] theorem procs_empty (label : String) : empty.procs label = ∅ := by
  simp [procs, empty]

/-- Recording a process changes the entry of its label and no other. -/
theorem procs_record (table : ProcTable) (label process other : String) :
    (table.record label process).procs other =
      if label = other then (table.procs label).insert process else table.procs other := by
  simp only [procs, record, TreeMap.getElem?_insert, Std.compare_eq_iff_eq]
  split <;> simp_all

/-- An erased label has no processes; the other entries are unchanged. -/
theorem procs_erase (table : ProcTable) (label other : String) :
    (table.erase label).procs other = if label = other then ∅ else table.procs other := by
  simp only [procs, erase, TreeMap.getElem?_erase, Std.compare_eq_iff_eq]
  split <;> simp_all

/-- Several processes recorded for one label. -/
def recordAll (table : ProcTable) (label : String) (processes : List String) : ProcTable :=
  processes.foldl (fun table process => table.record label process) table

theorem mem_recordAll {table : ProcTable} {label other p : String} {processes : List String} :
    p ∈ (table.recordAll label processes).procs other ↔
      p ∈ table.procs other ∨ label = other ∧ p ∈ processes := by
  induction processes generalizing table with
  | nil => simp [recordAll]
  | cons process rest ih =>
      rw [recordAll, List.foldl_cons]
      refine ih.trans ?_
      rw [procs_record]
      split
      · rename_i own
        subst own
        simp only [TreeSet.mem_insert, Std.compare_eq_iff_eq, List.mem_cons]
        constructor
        · rintro ((same | before) | ⟨_, later⟩)
          · exact .inr ⟨trivial, .inl same.symm⟩
          · exact .inl before
          · exact .inr ⟨trivial, .inr later⟩
        · rintro (before | ⟨_, same | later⟩)
          · exact .inl (.inr before)
          · exact .inl (.inl same.symm)
          · exact .inr ⟨trivial, later⟩
      · rename_i differ
        simp [differ]

end ProcTable

/-- `global_events_t`. -/
structure GlobalEvents where
  emitters : ProcTable
  receivers : ProcTable
  csp : ProcTable
  allowedCsp : TreeMap String EventSet
  labels : EventSet
  brodcasts : EventSet

namespace GlobalEvents

def empty : GlobalEvents := ⟨.empty, .empty, .empty, ∅, ∅, ∅⟩

instance : Inhabited GlobalEvents := ⟨empty⟩

end GlobalEvents

/-- `s_emit_event`. -/
def emitEvent (uevent : String) : String := uevent ++ "_emit"

/-- `s_recv_event`. -/
def recvEvent (uevent : String) : String := uevent ++ "_recv"

/-- `s_csp_event`. -/
def cspEvent (uevent : String) : String := uevent

/-- `STUCK_PROCESS`. -/
def stuckProcess : String := "Stuck"

/-- `NO_SYNC_EVENT`. -/
def noSyncEvent : String := "nosync"

end Utot
