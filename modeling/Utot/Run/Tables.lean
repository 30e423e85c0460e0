import Utot.Labels.Modes
import Utot.Order.Processes

/-!
# The tables at the end of the processes

What the loop over the processes leaves in the tables of events: an entry for
each synchronisation on a visited edge and no others.
-/

namespace Utot

open Utap Library Tchecker

section

variable {env : Env} {sysname : String} {tas : TimedAutomataSystem} {T : Frame GlobalEvents}

/-- A visit introduces an event and records a process at most. -/
theorem sTranslateEdge_within
    (introduces : ∀ events labels brodcasts, T.rel events { events with labels, brodcasts })
    (records : ∀ events kind s process, T.rel events (recordEvent events kind s process))
    (ctx : ContextPrefix) (q : Instance) (e : Edge) :
    Keeps (tablesFrame T) (sTranslateEdge env e ctx q) := by
  have declare (channel : Symbol) (reference : Expr) (ev s : String) :
      Keeps (tablesFrame T) (declareEvent env channel reference ev s) := by
    have finish := Keeps.bind (keeps_tables (T := T) (keepsEvents_writeLine (.event ev))) fun _ =>
      Keeps.update (R := tablesFrame T) (f := fun st => { st with
        events := { st.events with
          labels := st.events.labels.insert ev
          brodcasts :=
            if sIsBroadcast env channel then st.events.brodcasts.insert s else st.events.brodcasts } })
        fun st => introduces st.events _ _
    refine Keeps.bind Keeps.read fun st => Keeps.branch ?_ (Keeps.ret _)
    exact Keeps.branch (Keeps.bind (keeps_tables (keepsEvents_msg _ _ _)) fun _ => finish) finish
  have label : Keeps (tablesFrame T) (edgeEvent env e ctx q) := by
    unfold edgeEvent
    split
    · exact Keeps.ret _
    · rename_i kind channel _
      unfold sBuildEdgeLabel
      dsimp only
      split
      · exact Keeps.lift _
      · rename_i written _
        refine Keeps.bind (keeps_tables (keepsEvents_msg _ _ _)) fun _ =>
          Keeps.bind (Keeps.lift _) fun s => ?_
        have finish := Keeps.bind (declare written (.sync kind channel) (eventOf kind s) s) fun _ =>
          Keeps.bind (Keeps.update (R := tablesFrame T)
            (f := fun st => { st with events := recordEvent st.events kind s (stringOf ctx) })
            fun st => records st.events kind s (stringOf ctx)) fun _ => Keeps.ret (eventOf kind s)
        split
        · exact Keeps.bind (keeps_tables (keepsEvents_localEvent s)) fun _ => finish
        · exact finish
    · exact Keeps.lift _
  have finish : Keeps (tablesFrame T) (do
      let ev ← edgeEvent env e ctx q
      let src ← fromExcept (endName env e.src)
      let tgt ← fromExcept (endName env e.dst)
      assertTr (e.actname == "SKIP" || e.actname == "") "e.actname == \"SKIP\" || e.actname == \"\""
      let attr ← fromExcept (edgeAttributes env e ctx q)
      edge (stringOf ctx) src tgt ev attr : Tr Unit) := by
    refine Keeps.bind label fun ev => Keeps.bind (Keeps.lift _) fun src =>
      Keeps.bind (Keeps.lift _) fun tgt => Keeps.bind (Keeps.lift _) fun _ => ?_
    exact Keeps.bind (Keeps.lift _) fun attr => keeps_tables (keepsEvents_edge _ _ _ _ _)
  unfold sTranslateEdge
  split
  · exact Keeps.bind (keeps_tables (keepsEvents_write _)) fun _ => finish
  · exact finish

/-- The first part of a translation achieves what each visit does. -/
theorem translateProcesses_each {J : GlobalEvents → Prop}
    {C : ContextPrefix → Instance → Edge → GlobalEvents → Prop} (start : J .empty)
    (sections : ∀ events allowed, J events → J { events with allowedCsp := allowed })
    (stable : ∀ ctx q e events events', T.rel events events' → C ctx q e events → C ctx q e events')
    (keeps : ∀ ctx q e, Keeps (tablesFrame T) (sTranslateEdge env e ctx q))
    (visit : ∀ ctx q e, Visit env tas.processes ctx q e →
      Spec (fun s => J s.events) (sTranslateEdge env e ctx q)
        (fun _ s => J s.events ∧ C ctx q e s.events) fun _ => True)
    {st st' : TrState} (fresh : st.events = .empty)
    (run : exec (translateProcesses env sysname tas) st = (.ok (), st')) :
    J st'.events ∧ ∀ ctx q e, Visit env tas.processes ctx q e → C ctx q e st'.events := by
  have preamble : Spec (fun s => s = st) (writeLine (.system sysname)) (fun _ s => J s.events)
      fun _ => True :=
    Spec.update (by
      rintro s rfl
      rw [TrState.writeLine_events, fresh]
      exact start)
  have whole := preamble.bind fun _ =>
    (spec_unchanged (keepsEvents_declarations env none [] tas.globals)).bind fun _ =>
      (registerIoSections_spec env tas.globals sections).bind fun _ =>
        processes_each tas.processes stable keeps visit
  exact whole.returned rfl run

/-- No process is removed from a table. -/
def entriesGrow : Frame GlobalEvents where
  rel events events' := ∀ kind s process, process ∈ (tableOf kind events).procs s →
    process ∈ (tableOf kind events').procs s
  refl _ _ _ _ inside := inside
  trans first second kind s process inside := second kind s process (first kind s process inside)

/-- The visited edge has been recorded under its label. -/
def Recorded (env : Env) (ctx : ContextPrefix) (q : Instance) (e : Edge) (events : GlobalEvents) : Prop :=
  ∀ kind channel, e.sync = some (.sync kind channel) → ∃ written s, channel.getSymbol? = some written ∧
    baseLabel env q written (.sync kind channel) ctx = .ok s ∧
    stringOf ctx ∈ (tableOf kind events).procs s

theorem tableOf_declaredIn (kind : SyncKind) (channel : Symbol) (ev s : String) (events : GlobalEvents) :
    tableOf kind (declaredIn env channel ev s events) = tableOf kind events := by
  unfold declaredIn
  split
  · rfl
  · cases kind <;> rfl

/-- Every entry of the tables comes from a synchronisation of its process. -/
def EntriesUsed (env : Env) (processes : List Instance) (events : GlobalEvents) : Prop :=
  ∀ kind s process, process ∈ (tableOf kind events).procs s →
    ∃ written, Synchronises env processes process kind written s

theorem visit_recorded {ctx : ContextPrefix} {q : Instance} {e : Edge}
    (visit : Visit env tas.processes ctx q e) :
    Spec (fun st => EntriesUsed env tas.processes st.events) (sTranslateEdge env e ctx q)
      (fun _ st => EntriesUsed env tas.processes st.events ∧ Recorded env ctx q e st.events)
      fun _ => True := by
  refine (Spec.anyOf fun before => Spec.assume (c := EntriesUsed env tas.processes before)
    fun pre => (sTranslateEdge_spec env e ctx q before).weaken (fun _ same => same) ?_
      fun _ failed => failed).weaken (fun st pre => ⟨st.events, pre, rfl⟩) (fun _ _ post => post)
    fun _ failed => failed
  rintro _ st (⟨silent, same⟩ | ⟨kind, channel, written, s, sync, symbol, labelled, tables⟩)
  · rw [same]
    exact ⟨pre, fun kind channel sync => by rw [silent] at sync; cases sync⟩
  · rw [tables]
    constructor
    · intro kind' s' process inside
      rw [mem_tableOf_recordEvent, tableOf_declaredIn] at inside
      rcases inside with before | ⟨rfl, rfl, rfl⟩
      · exact pre kind' s' process before
      · exact ⟨written, ⟨ctx, q, e, channel, visit, sync, symbol, labelled, rfl⟩⟩
    · intro kind' channel' sync'
      rw [sync] at sync'
      cases sync'
      exact ⟨written, s, symbol, labelled, mem_tableOf_recordEvent.mpr (.inr ⟨rfl, rfl, rfl⟩)⟩

variable {st st' : TrState} (fresh : st.events = .empty)
  (run : exec (translateProcesses env sysname tas) st = (.ok (), st'))

include fresh run

/-- A process is recorded under a label exactly if one of its visited edges
synchronises with that label. -/
theorem tables_exact (kind : SyncKind) (s process : String) :
    process ∈ (tableOf kind st'.events).procs s ↔
      ∃ written, Synchronises env tas.processes process kind written s := by
  have start : EntriesUsed env tas.processes .empty := by
    intro kind s process inside
    have empty : tableOf kind .empty = .empty := by cases kind <;> rfl
    rw [empty, ProcTable.procs_empty] at inside
    exact absurd inside Std.TreeSet.not_mem_emptyc
  have whole := translateProcesses_each (T := entriesGrow) start
    (fun events allowed used kind => by
      cases kind <;> [exact used .que; exact used .bang; exact used .csp])
    (C := Recorded env)
    (fun ctx q e events events' grow recorded kind channel sync => by
      obtain ⟨written, s, symbol, labelled, inside⟩ := recorded kind channel sync
      exact ⟨written, s, symbol, labelled, grow _ _ _ inside⟩)
    (sTranslateEdge_within
      (fun events labels brodcasts kind s process inside => by cases kind <;> exact inside)
      fun events kind s process kind' s' process' inside =>
        mem_tableOf_recordEvent.mpr (.inl inside))
    (fun ctx q e visit => visit_recorded visit) fresh run
  constructor
  · exact whole.1 kind s process
  · rintro ⟨written, ⟨ctx, q, e, channel, visit, sync, symbol, labelled, rfl⟩⟩
    obtain ⟨written', s', symbol', labelled', inside⟩ := whole.2 ctx q e visit kind channel sync
    rw [symbol] at symbol'
    cases symbol'
    rw [labelled] at labelled'
    cases labelled'
    exact inside

/-- The label of a synchronisation is recorded as broadcast exactly if its channel
was declared broadcast. -/
theorem brodcasts_of_uses (agree : ModesAgree env tas.processes) {kind : SyncKind} {s : String}
    {written actual : Symbol} (use : Uses env tas.processes kind s written actual) :
    s ∈ st'.events.brodcasts ↔ declaredBroadcast (env.getType actual) = true := by
  have start : ModesInvariant env tas.processes GlobalEvents.empty := by
    constructor <;> simp [GlobalEvents.empty]
  obtain ⟨holds, introduced⟩ := translateProcesses_each (T := labelsGrow) start
    (fun _ _ holds => ⟨holds.recorded, holds.sound⟩)
    (C := fun ctx q e events => LabelledWith env (fun kind s _ => eventOf kind s ∈ events.labels) ctx q e)
    (fun ctx q e events events' grow done kind channel sync => by
      obtain ⟨written, s, actual, symbol, resolves, labelled, inside⟩ := done kind channel sync
      exact ⟨written, s, actual, symbol, resolves, labelled, grow _ inside⟩)
    (sTranslateEdge_grows env) (visit_modes agree) fresh run
  obtain ⟨ctx, q, e, channel, visit, sync, symbol, resolves, labelled⟩ := use
  obtain ⟨written', s', actual', symbol', _, labelled', inside⟩ :=
    introduced ctx q e visit kind channel sync
  rw [symbol] at symbol'
  cases symbol'
  rw [labelled] at labelled'
  cases labelled'
  exact holds.exact agree ⟨ctx, q, e, channel, visit, sync, symbol, resolves, labelled⟩ inside

end

end Utot
