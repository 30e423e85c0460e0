import Utot.Order.Processes
import Utot.Run.Endings
import Utot.Sync.Vectors

/-!
# What the generation of vectors keeps

A vector is made of entries of the tables and of the process `Stuck`.  A
property that says which entries there are, and is kept when a vector of them is
written, is kept by the generation.
-/

namespace Utot

open Utap Library Tchecker

/-! ## Elements of vectors -/

theorem mem_elements_insertIfNew {sv : SyncMap} {p e : String} {w : Bool} {x : SyncElement}
    (inside : x ∈ elements (sv.insertIfNew p (e, w))) : x ∈ elements sv ∨ x = ⟨p, e, w⟩ := by
  rw [mem_elements, Std.TreeMap.getElem?_insertIfNew] at inside
  split at inside
  · rename_i fresh
    right
    obtain ⟨process, event, weak⟩ := x
    cases inside
    rw [Std.compare_eq_iff_eq.mp fresh.1]
  · left
    exact mem_elements.mpr inside

/-- Every element of a vector has a property that holds of its process and event. -/
def Made (known : String → String → Prop) (sv : SyncMap) : Prop :=
  ∀ x ∈ elements sv, known x.process x.event

theorem made_empty (known : String → String → Prop) : Made known ∅ := by
  intro x inside
  rw [elements_empty] at inside
  cases inside

theorem Made.insert {known : String → String → Prop} {sv : SyncMap} (made : Made known sv)
    {p e : String} (new : known p e) (w : Bool) : Made known (sv.insertIfNew p (e, w)) := by
  intro x inside
  rcases mem_elements_insertIfNew inside with before | rfl
  · exact made x before
  · exact new

theorem made_broadcastMap {known : String → String → Prop} {s pe : String} {receivers : List String}
    (sender : known pe (emitEvent s)) (receive : ∀ pr ∈ receivers, known pr (recvEvent s)) :
    Made known (broadcastMap s pe receivers) := by
  have step : ∀ (receivers : List String) (start : SyncMap), Made known start →
      (∀ pr ∈ receivers, known pr (recvEvent s)) → Made known (receivers.foldl
        (fun vect pr => if pe = pr then vect else vect.insertIfNew pr (recvEvent s, true)) start) := by
    intro receivers
    induction receivers with
    | nil =>
        intro start made _
        exact made
    | cons pr rest ih =>
        intro start made receive
        rw [List.foldl_cons]
        refine ih _ ?_ fun q later => receive q (List.mem_cons_of_mem _ later)
        by_cases own : pe = pr
        · rw [if_pos own]
          exact made
        · rw [if_neg own]
          exact made.insert (receive pr List.mem_cons_self) true
  exact step receivers _ ((made_empty known).insert sender false) receive

/-! ## Properties that are kept -/

/-- Receivers that are erased leave the other entries alone. -/
theorem mem_tableOf_erase {events : GlobalEvents} {kind : SyncKind} {s label process : String}
    (inside : process ∈ (tableOf kind
      { events with receivers := events.receivers.erase s }).procs label) :
    process ∈ (tableOf kind events).procs label := by
  cases kind with
  | bang => exact inside
  | csp => exact inside
  | que =>
      change process ∈ (events.receivers.erase s).procs label at inside
      rw [ProcTable.procs_erase] at inside
      split at inside
      · exact absurd inside Std.TreeSet.not_mem_emptyc
      · exact inside

/-- A process and an event a vector can have while the flag says whether `Stuck`
is missing. -/
def Usable (known : String → String → Prop) (missing : Bool) (process event : String) : Prop :=
  known process event ∨ missing = false ∧ process = stuckProcess ∧ event = noSyncEvent

/-- The property says which processes and events the tables have, and is kept by
whatever the generation of vectors does with them. -/
structure Generating (I : TrState → Prop) (known : String → String → Prop) : Prop where
  tables : ∀ {st}, I st → ∀ kind {s process},
    process ∈ (tableOf kind st.events).procs s → known process (eventOf kind s)
  sync : ∀ {st sv}, I st → Made (Usable known st.addStuckProcess) sv →
    I (st.writeLine (.sync (elements sv)))
  stuck : ∀ {st}, I st → st.addStuckProcess = true →
    I { (exec sAddStuckProcess st).2 with addStuckProcess := false }
  erase : ∀ {st}, I st → ∀ s, I { st with
    events := { st.events with receivers := st.events.receivers.erase s } }

theorem foldlM_kept {I : TrState → Prop} {α β : Type} {as : List α} {f : β → α → Tr β} (b : β)
    (round : ∀ b, ∀ a ∈ as, Spec I (f b a) (fun _ => I) fun _ => True) :
    Spec I (as.foldlM f b) (fun _ => I) fun _ => True := by
  refine Spec.foldlM (I := fun _ _ => I) (fun visited a rest b split => ?_) b
  refine round b a ?_
  rw [split]
  simp

section

variable {I : TrState → Prop} {known : String → String → Prop} (kept : Generating I known)

include kept

theorem sync_kept {sv : SyncMap} (made : Made known sv) :
    Spec I (sync sv) (fun _ => I) fun _ => True := by
  refine Spec.liftBind (fun _ _ => Spec.update fun st pre => ?_) fun _ _ => trivial
  exact kept.sync pre fun x inside => .inl (made x inside)

/-- A blocked event is paired with `nosync`, of a process `Stuck` that is there by then. -/
theorem sGenerateBlockedEvent_kept {s p : String} {trevent : String → String}
    (blocked : known p (trevent s)) :
    Spec I (sGenerateBlockedEvent s p trevent) (fun _ => I) fun _ => True := by
  have finish : Spec (fun st => I st ∧ st.addStuckProcess = false)
      (sync (((∅ : SyncMap).insertIfNew p (trevent s, false)).insertIfNew stuckProcess
        (noSyncEvent, false))) (fun _ => I) (fun _ => True) := by
    refine Spec.liftBind (fun _ _ => Spec.update fun st pre => ?_) fun _ _ => trivial
    refine kept.sync pre.1 (((made_empty _).insert ?_ false).insert ?_ false)
    · exact .inl blocked
    · exact .inr ⟨pre.2, rfl, rfl⟩
  refine Spec.read fun r pre => ?_
  split
  · rename_i missing
    refine Spec.bind (Q := fun _ st => st = (exec sAddStuckProcess r).2) ?_ fun _ => ?_
    · intro st same
      subst same
      exact rfl
    · refine Spec.bind (Q := fun _ st => I st ∧ st.addStuckProcess = false)
        (Spec.update ?_) fun _ => finish
      rintro st rfl
      exact ⟨kept.stuck pre missing, rfl⟩
  · rename_i present
    exact finish.weaken (by rintro st rfl; exact ⟨pre, by simpa using present⟩)
      (fun _ _ post => post) fun _ failed => failed

/-- What the table of a label says of its processes. -/
theorem Generating.entry {st : TrState} (holds : I st) (kind : SyncKind)
    {entry : String × ProcSet} (inside : entry ∈ (tableOf kind st.events).map.toList) :
    ∀ p ∈ entry.2, known p (eventOf kind entry.1) := by
  intro p member
  refine kept.tables holds kind ?_
  rw [ProcTable.mem_procs_iff]
  exact ⟨entry.2, Std.TreeMap.mem_toList_iff_getElem?_eq_some.mp inside, member⟩

/-! ## The loops -/

theorem sBinaryEmitter_kept {s pe : String} {receivers : ProcSet}
    (sender : known pe (emitEvent s))
    (receive : ∀ pr ∈ receivers, known pr (recvEvent s)) (clear : Bool) :
    Spec I (sBinaryEmitter s receivers clear pe) (fun _ => I)
      fun _ => True := by
  have pairs : Spec I (sPairEmitter s pe receivers) (fun _ => I)
      (fun _ => True) := by
    refine foldlM_kept true fun norecv pr inside => ?_
    refine Spec.bind (Q := fun _ => I) ?_ fun _ => Spec.ret _ fun _ post => post
    unfold sGenerateEmitRecv
    split
    · exact Spec.ret _ fun _ pre => pre
    · refine Spec.bind (sync_kept kept ?_) fun _ => Spec.ret _ fun _ post => post
      exact ((made_empty _).insert sender false).insert
        (receive pr (Std.TreeSet.mem_toList.mp inside)) false
  refine Spec.bind pairs fun norecv => ?_
  split
  · exact Spec.bind (sGenerateBlockedEvent_kept kept sender) fun _ => Spec.ret _ fun _ post => post
  · exact Spec.ret _ fun _ pre => pre

theorem sBroadcastEmitter_kept {s pe : String} {receivers : ProcSet}
    (sender : known pe (emitEvent s))
    (receive : ∀ pr ∈ receivers, known pr (recvEvent s)) (clear : Bool) :
    Spec I (sBroadcastEmitter s receivers clear pe) (fun _ => I)
      fun _ => True := by
  refine Spec.bind (Q := fun _ => I) ?_ fun _ => Spec.ret _ fun _ post => post
  unfold sGenerateEmitBroadcast
  dsimp only
  split
  · refine Spec.bind (sync_kept kept ?_) fun _ => Spec.ret _ fun _ post => post
    exact made_broadcastMap sender fun pr inside =>
      receive pr (Std.TreeSet.mem_toList.mp inside)
  · exact Spec.ret _ fun _ pre => pre

theorem clear_kept (s : String) (clear : Bool) :
    Spec I (if clear then
        modify fun st => { st with
          events := { st.events with receivers := st.events.receivers.erase s } }
      else pure () : Tr Unit) (fun _ => I) fun _ => True := by
  split
  · exact Spec.update fun st pre => kept.erase pre s
  · exact Spec.ret _ fun _ pre => pre

theorem sSyncEmitters_kept {s : String} {emitters : ProcSet}
    (senders : ∀ pe ∈ emitters, known pe (emitEvent s)) :
    Spec I (sSyncEmitters s emitters) (fun _ => I) fun _ => True := by
  have sender : ∀ pe ∈ emitters.toList, known pe (emitEvent s) := fun pe inside =>
    senders pe (Std.TreeSet.mem_toList.mp inside)
  refine Spec.read fun r pre => ?_
  have start : ∀ st, st = r → I st := by
    rintro st rfl
    exact pre
  cases found : r.events.receivers.map[s]? with
  | none =>
      dsimp only
      split
      · exact Spec.ret _ start
      · exact (Spec.loop fun pe inside => sGenerateBlockedEvent_kept kept (sender pe inside)).weaken start
          (fun _ _ post => post) fun _ failed => failed
  | some receivers =>
      have receive : ∀ pr ∈ receivers, known pr (recvEvent s) := by
        intro pr inside
        refine kept.tables pre .que ?_
        exact ProcTable.mem_procs_iff.mpr ⟨receivers, found, inside⟩
      refine Spec.liftBind (fun _ _ => ?_) fun _ _ => trivial
      split
      · refine Spec.bind ((foldlM_kept false fun clear pe inside =>
          sBroadcastEmitter_kept kept (sender pe inside) receive clear).weaken start
          (fun _ _ post => post) fun _ failed => failed) fun clear => clear_kept kept s clear
      · refine Spec.bind ((foldlM_kept false fun clear pe inside =>
          sBinaryEmitter_kept kept (sender pe inside) receive clear).weaken start
          (fun _ _ post => post) fun _ failed => failed) fun clear => clear_kept kept s clear

theorem sGenerateChannelVectors_kept :
    Spec I sGenerateChannelVectors (fun _ => I) fun _ => True := by
  refine Spec.read fun r pre => ?_
  refine Spec.bind (Q := fun _ => I) ((Spec.loop fun entry inside =>
    sSyncEmitters_kept kept (kept.entry pre .bang inside)).weaken (by rintro st rfl; exact pre)
    (fun _ _ post => post) fun _ failed => failed) fun _ => ?_
  refine Spec.read fun r' pre' => ?_
  refine (Spec.loop fun entry inside => Spec.loop fun pr member =>
    sGenerateBlockedEvent_kept kept ?_).weaken (by rintro st rfl; exact pre')
    (fun _ _ post => post) fun _ failed => failed
  exact kept.entry pre' .que inside pr (Std.TreeSet.mem_toList.mp member)

theorem sGenerateStrongSync_kept {s : String} {processes : ProcSet}
    (allowedCsp : Std.TreeMap String EventSet)
    (sharing : ∀ p ∈ processes, known p (cspEvent s)) :
    Spec I (sGenerateStrongSync s processes allowedCsp) (fun _ => I)
      fun _ => True := by
  have loop : Spec I (processes.toList.foldlM (sStrongSyncStep allowedCsp s) ∅)
      (fun vect st => Made known vect ∧ I st) (fun _ => True) := by
    refine (Spec.foldlM (I := fun _ vect st => Made known vect ∧ I st)
      (fun visited p rest vect split => ?_) ∅).weaken (fun _ pre => ⟨made_empty _, pre⟩)
      (fun _ _ post => post) fun _ failed => failed
    have member : p ∈ processes := by
      refine Std.TreeSet.mem_toList.mp ?_
      rw [split]
      simp
    refine Spec.assume fun made => ?_
    unfold sStrongSyncStep
    split
    · exact Spec.bind (sGenerateBlockedEvent_kept kept (sharing p member)) fun _ =>
        Spec.ret _ fun _ post => ⟨made, post⟩
    · refine Spec.ret _ fun _ pre => ⟨?_, pre⟩
      split
      · exact made.insert (sharing p member) false
      · exact made
  refine Spec.bind loop fun vect => Spec.assume fun made => ?_
  split
  · exact sync_kept kept made
  · exact Spec.ret _ fun _ pre => pre

theorem sGenerateSyncVectors_kept :
    Spec (fun st => I { st with addStuckProcess := true }) sGenerateSyncVectors (fun _ => I)
      fun _ => True := by
  refine Spec.bind (Q := fun _ => I) (Spec.update fun _ start => start) fun _ => ?_
  refine Spec.bind (sGenerateChannelVectors_kept kept) fun _ => ?_
  refine Spec.read fun r pre => ?_
  refine (Spec.loop fun entry inside => sGenerateStrongSync_kept kept _
    (kept.entry pre .csp inside)).weaken (by rintro st rfl; exact pre)
    (fun _ _ post => post) fun _ failed => failed

end

end Utot
