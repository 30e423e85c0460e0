import Mathlib.Data.List.Sort
import Utot.Run.Verbosity
import Utot.Order.Processes
import Utot.Sync.Vectors

/-!
# Vectors from similar states

The vectors are generated from what the tables hold, not from the order in which
it has been entered: tables with the same entries give the same list of vectors.
-/

namespace Utot

open Utap Library Tchecker

/-! ## Tables with the same entries -/

theorem toList_congr {set set' : EventSet} (same : ∀ x, x ∈ set ↔ x ∈ set') : set.toList = set'.toList :=
  (Std.TreeSet.Equiv.of_forall_mem_iff same).toList_eq

namespace ProcTable

/-- The entry of a label is there if it has processes. -/
theorem getElem?_map (table : ProcTable) (s : String) :
    table.map[s]? = if (table.procs s).toList = [] then none else some (table.procs s) := by
  unfold procs
  cases found : table.map[s]? with
  | none =>
      rw [Option.getD_none, if_pos]
      rfl
  | some set =>
      have inside := table.inhabited s set found
      rw [Option.getD_some, if_neg]
      intro none
      rw [← Std.TreeSet.isEmpty_toList, none] at inside
      cases inside

theorem toList_map (table : ProcTable) :
    table.map.toList = table.map.keys.map fun s => (s, table.procs s) := by
  rw [← Std.TreeMap.map_fst_toList_eq_keys, List.map_map]
  refine (List.map_id _).symm.trans (List.map_congr_left fun kv listed => ?_)
  have found := Std.TreeMap.mem_toList_iff_getElem?_eq_some.mp listed
  refine Prod.ext rfl ?_
  simp only [Function.comp, procs, found, Option.getD_some, id]

theorem mem_keys {table : ProcTable} {s : String} : s ∈ table.map.keys ↔ (table.procs s).toList ≠ [] := by
  rw [Std.TreeMap.mem_keys, Std.TreeMap.mem_iff_isSome_getElem?, getElem?_map]
  split <;> simp [*]

/-- Tables with the same entries are walked through alike. -/
theorem forall₂_toList {table table' : ProcTable}
    (same : ∀ s, (table.procs s).toList = (table'.procs s).toList) :
    List.Forall₂ (fun kv kv' => kv.1 = kv'.1 ∧ kv.2.toList = kv'.2.toList ∧ (table.procs kv.1).toList ≠ [])
      table.map.toList table'.map.toList := by
  have keys : table.map.keys = table'.map.keys := by
    have apart {a b : String} (less : compare a b = .lt) : ¬ compare b a = .lt := by
      have swap : compare b a = (compare a b).swap := Std.OrientedCmp.eq_swap
      rw [swap, less]
      rintro ⟨⟩
    have : Std.Antisymm fun a b : String => compare a b = .lt := ⟨fun a b less more => absurd more (apart less)⟩
    have : Std.Irrefl fun a b : String => compare a b = .lt := ⟨fun a less => apart less less⟩
    refine List.Pairwise.eq_of_mem_iff (r := fun a b => compare a b = .lt) Std.TreeMap.ordered_keys
      Std.TreeMap.ordered_keys fun s => ?_
    rw [mem_keys, mem_keys, same]
  rw [toList_map, toList_map, ← keys, List.forall₂_map_left_iff, List.forall₂_map_right_iff,
    List.forall₂_same]
  exact fun s listed => ⟨rfl, same s, mem_keys.mp listed⟩

end ProcTable

/-! ## Vectors -/

/-- The states differ in the order of lines at most; `used` are the labels of channels
that are emitted. -/
structure Similar (used : String → Prop) (st st' : TrState) : Prop where
  lines : st.lines.Perm st'.lines
  vectors : st.vectors = st'.vectors
  entries : ∀ kind s, ((tableOf kind st.events).procs s).toList = ((tableOf kind st'.events).procs s).toList
  emitted : ∀ s, (st.events.emitters.procs s).toList ≠ [] → used s
  modes : ∀ s, used s → (s ∈ st.events.brodcasts ↔ s ∈ st'.events.brodcasts)
  allowedCsp : st.events.allowedCsp = st'.events.allowedCsp
  addStuckProcess : st.addStuckProcess = st'.addStuckProcess

theorem lines_write (st : TrState) (o : Output) : (st.write o).lines = st.lines ++ linesOf [o] :=
  List.filterMap_append

theorem vectors_write (st : TrState) (o : Output) : (st.write o).vectors = st.vectors ++ vectorsOf (linesOf [o]) := by
  unfold TrState.vectors
  rw [lines_write]
  exact List.filterMap_append

variable {used : String → Prop}

theorem sides_similar : SideBySide (Similar used) where
  write {st st'} same o := by
    refine ⟨?_, ?_, same.entries, same.emitted, same.modes, same.allowedCsp, same.addStuckProcess⟩
    · rw [lines_write, lines_write]
      exact same.lines.append_right _
    · rw [vectors_write, vectors_write, same.vectors]
  left {st _} same level args := by
    refine ⟨?_, ?_, same.entries, same.emitted, same.modes, same.allowedCsp, same.addStuckProcess⟩
    · rw [TrState.lines_message]
      exact same.lines
    · unfold TrState.vectors
      rw [TrState.lines_message]
      exact same.vectors
  right {_ st'} same level args := by
    refine ⟨?_, ?_, same.entries, same.emitted, same.modes, same.allowedCsp, same.addStuckProcess⟩
    · rw [TrState.lines_message]
      exact same.lines
    · unfold TrState.vectors
      rw [TrState.lines_message]
      exact same.vectors

/-- Only lines, tables and the flag of `Stuck` matter. -/
theorem Similar.congr {st st' t t' : TrState} (same : Similar used st st') (lines : t.lines = st.lines)
    (events : t.events = st.events) (lines' : t'.lines = st'.lines) (events' : t'.events = st'.events)
    (stuck : t.addStuckProcess = t'.addStuckProcess) : Similar used t t' where
  lines := by
    rw [lines, lines']
    exact same.lines
  vectors := by
    unfold TrState.vectors
    rw [lines, lines']
    exact same.vectors
  entries := by
    rw [events, events']
    exact same.entries
  emitted := by
    rw [events]
    exact same.emitted
  modes := by
    rw [events, events']
    exact same.modes
  allowedCsp := by
    rw [events, events']
    exact same.allowedCsp
  addStuckProcess := stuck

theorem similar_sync (sv : SyncMap) : Alike (Similar used) (sync sv) (sync sv) :=
  Alike.liftBind fun _ _ => alike_line sides_similar _

theorem similar_blockedEvent (s q : String) (trevent : String → String) :
    Alike (Similar used) (sGenerateBlockedEvent s q trevent) (sGenerateBlockedEvent s q trevent) := by
  refine Alike.read fun st st' same => ?_
  rw [same.addStuckProcess]
  refine Alike.branch (fun _ => Alike.bind ?_ fun _ => ?_) fun _ => similar_sync _
  · exact Alike.bind (alike_comment sides_similar _) fun _ => Alike.bind (alike_line sides_similar _) fun _ =>
      Alike.bind (alike_line sides_similar _) fun _ => alike_line sides_similar _
  · refine Alike.bind (Alike.update fun _ _ same => ?_) fun _ => similar_sync _
    exact ⟨same.lines, same.vectors, same.entries, same.emitted, same.modes, same.allowedCsp, rfl⟩

theorem similar_broadcastEmitter (s : String) (receivers : ProcSet) (clear : Bool) (pe : String) :
    Alike (Similar used) (sBroadcastEmitter s receivers clear pe) (sBroadcastEmitter s receivers clear pe) := by
  refine Alike.bind ?_ fun _ => Alike.ret _
  exact Alike.branch (fun _ => Alike.bind (similar_sync _) fun _ => Alike.ret _) fun _ => Alike.ret _

theorem similar_binaryEmitter (s : String) (receivers : ProcSet) (clear : Bool) (pe : String) :
    Alike (Similar used) (sBinaryEmitter s receivers clear pe) (sBinaryEmitter s receivers clear pe) := by
  refine Alike.bind (Alike.foldlM (fun pr _ norecv => Alike.bind ?_ fun _ => Alike.ret _) _) fun norecv => ?_
  · exact Alike.branch (fun _ => Alike.ret _) fun _ => Alike.bind (similar_sync _) fun _ => Alike.ret _
  · exact Alike.branch (fun _ => Alike.bind (similar_blockedEvent _ _ _) fun _ => Alike.ret _)
      fun _ => Alike.ret _

/-- The receivers of the label are forgotten on both sides. -/
theorem similar_clear (s : String) (flag : Bool) : Alike (Similar used)
    (if flag then
      modify fun st => { st with events := { st.events with receivers := st.events.receivers.erase s } }
      else pure () : Tr Unit)
    (if flag then
      modify fun st => { st with events := { st.events with receivers := st.events.receivers.erase s } }
      else pure () : Tr Unit) := by
  refine Alike.branch (fun _ => Alike.update fun st st' same => ?_) fun _ => Alike.ret _
  refine ⟨same.lines, same.vectors, fun kind s' => ?_, same.emitted, same.modes, same.allowedCsp, same.addStuckProcess⟩
  cases kind with
  | bang => exact same.entries .bang s'
  | csp => exact same.entries .csp s'
  | que =>
      change ((st.events.receivers.erase s).procs s').toList = ((st'.events.receivers.erase s).procs s').toList
      rw [ProcTable.procs_erase, ProcTable.procs_erase]
      split
      · rfl
      · exact same.entries .que s'

/-- One round of the loop over the emitters, for sets that are walked through alike. -/
theorem similar_syncEmitters {s : String} {emitters emitters' : ProcSet} (emitted : used s)
    (listed : emitters.toList = emitters'.toList) :
    Alike (Similar used) (sSyncEmitters s emitters) (sSyncEmitters s emitters') := by
  refine Alike.read fun st st' same => ?_
  have entry := same.entries .que s
  change (st.events.receivers.procs s).toList = (st'.events.receivers.procs s).toList at entry
  have mode : (s ∈ st.events.brodcasts) = (s ∈ st'.events.brodcasts) := propext (same.modes s emitted)
  rw [ProcTable.getElem?_map, ProcTable.getElem?_map, ← entry, listed]
  by_cases none : (st.events.receivers.procs s).toList = []
  · rw [if_pos none, if_pos none]
    dsimp only
    simp only [mode]
    exact Alike.branch (fun _ => Alike.ret _) fun _ => Alike.forM fun pe _ => similar_blockedEvent _ _ _
  · rw [if_neg none, if_neg none]
    dsimp only
    generalize st.events.receivers.procs s = receivers at entry
    generalize st'.events.receivers.procs s = receivers' at entry
    have broadcast : sBroadcastEmitter s receivers' = sBroadcastEmitter s receivers := by
      unfold sBroadcastEmitter sGenerateEmitBroadcast
      rw [entry]
    have binary : sBinaryEmitter s receivers' = sBinaryEmitter s receivers := by
      unfold sBinaryEmitter sPairEmitter
      rw [entry]
    have empty : receivers'.isEmpty = receivers.isEmpty := by
      rw [← Std.TreeSet.isEmpty_toList, ← Std.TreeSet.isEmpty_toList, entry]
    simp only [mode, broadcast, binary, empty]
    refine Alike.liftBind fun _ _ => ?_
    split
    · exact Alike.bind (Alike.foldlM (fun pe _ clear => similar_broadcastEmitter _ _ _ _) _) (similar_clear s)
    · exact Alike.bind (Alike.foldlM (fun pe _ clear => similar_binaryEmitter _ _ _ _) _) (similar_clear s)

theorem similar_strongSync {s : String} {processes processes' : ProcSet}
    (listed : processes.toList = processes'.toList) (allowedCsp : Std.TreeMap String EventSet) :
    Alike (Similar used) (sGenerateStrongSync s processes allowedCsp)
      (sGenerateStrongSync s processes' allowedCsp) := by
  unfold sGenerateStrongSync
  rw [listed]
  refine Alike.bind (Alike.foldlM (fun q _ vect => ?_) _) fun vect =>
    Alike.branch (fun _ => similar_sync _) fun _ => Alike.ret _
  unfold sStrongSyncStep
  split
  · exact Alike.bind (similar_blockedEvent _ _ _) fun _ => Alike.ret _
  · exact Alike.ret _

/-- From similar states the vectors are generated alike. -/
theorem similar_syncVectors : Alike (Similar used) sGenerateSyncVectors sGenerateSyncVectors := by
  refine Alike.bind (Alike.update fun _ _ same => ?_) fun _ => Alike.bind ?_ fun _ => ?_
  · exact ⟨same.lines, same.vectors, same.entries, same.emitted, same.modes, same.allowedCsp, rfl⟩
  · refine Alike.read fun st st' same => ?_
    refine Alike.bind (Alike.forM₂ ?_) fun _ => Alike.read fun st st' same => Alike.forM₂ ?_
    · refine (ProcTable.forall₂_toList (same.entries .bang)).imp fun kv kv' entry => ?_
      obtain ⟨label, listed, inhabited⟩ := entry
      rw [← label]
      exact similar_syncEmitters (same.emitted _ inhabited) listed
    · refine (ProcTable.forall₂_toList (same.entries .que)).imp fun kv kv' entry => ?_
      rw [entry.1, entry.2.1]
      exact Alike.forM fun pr _ => similar_blockedEvent _ _ _
  · refine Alike.read fun st st' same => ?_
    rw [← same.allowedCsp]
    refine Alike.forM₂ ((ProcTable.forall₂_toList (same.entries .csp)).imp fun kv kv' entry => ?_)
    rw [entry.1]
    exact similar_strongSync entry.2.1 _

end Utot
