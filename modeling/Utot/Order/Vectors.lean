import Utot.Run.Vectors

/-!
# Declarations before uses: the synchronisation vectors

The generation of vectors uses only processes and events of the tables, which
have been introduced with the processes, and adds the process `Stuck` once.
-/

namespace Utot

open Utap Library Tchecker

/-! ## The invariant -/

section Linked

variable {middle : TrState}

/-- A process and an event that have been introduced. -/
def Present (st : TrState) (process event : String) : Prop :=
  Introduced st (.process process) ∧ Introduced st (.event event)

/-- What holds while vectors are written; `middle` is the state in which the
generation starts. -/
structure Linked (middle st : TrState) : Prop where
  ordered : Ordered lineNames st.lines
  keeps : ∀ {n}, Introduced middle n → Introduced st n
  added : st.addStuckProcess = false → Present st stuckProcess noSyncEvent
  missing : st.addStuckProcess = true → ¬ Introduced st (.process stuckProcess) ∧
    ¬ Introduced st (.event noSyncEvent) ∧ ¬ Introduced st (.location stuckProcess "sink")
  tables : ∀ kind {s process}, process ∈ (tableOf kind st.events).procs s →
    Present middle process (eventOf kind s)
  edges : ∀ {process src tgt event attr}, Line.edge process src tgt event attr ∈ st.lines →
    Line.edge process src tgt event attr ∈ middle.lines

theorem Linked.present {st : TrState} (holds : Linked middle st) {process event : String}
    (known : Present middle process event) : Present st process event :=
  ⟨holds.keeps known.1, holds.keeps known.2⟩

theorem introduced_sync {st : TrState} {v : SyncVector} {n : Name} :
    Introduced (st.writeLine (.sync v)) n ↔ Introduced st n := by
  rw [introduced_writeLine]
  exact or_iff_left (by rintro ⟨⟩)

/-- A vector of processes and events that are there. -/
theorem Linked.sync {st : TrState} (holds : Linked middle st) {sv : SyncMap}
    (made : Made (Present st) sv) : Linked middle (st.writeLine (.sync (elements sv))) := by
  constructor
  · refine ordered_writeLine holds.ordered ?_ (by rintro n ⟨⟩)
    intro n needed
    obtain ⟨x, inside, named⟩ := List.mem_flatMap.mp needed
    simp only [List.mem_cons, List.not_mem_nil, or_false] at named
    rcases named with rfl | rfl
    · exact (made x inside).1
    · exact (made x inside).2
  · intro n introduced
    exact introduced_sync.mpr (holds.keeps introduced)
  · intro added
    exact ⟨introduced_sync.mpr (holds.added added).1, introduced_sync.mpr (holds.added added).2⟩
  · intro missing
    simp only [introduced_sync]
    exact holds.missing missing
  · exact holds.tables
  · intro process src tgt event attr inside
    exact holds.edges (edge_mem_writeLine (by rintro ⟨⟩) inside)

/-- The lines of the process `Stuck`. -/
theorem Linked.addStuck {st : TrState} (holds : Linked middle st)
    (missing : st.addStuckProcess = true) (args : List Arg) :
    Linked middle { ((((st.write (.comment args)).writeLine (.process stuckProcess)).writeLine
      (.event noSyncEvent)).writeLine (.location stuckProcess "sink" [("initial", "")])) with
      addStuckProcess := false } := by
  obtain ⟨noProcess, noEvent, noLocation⟩ := holds.missing missing
  have commented := neutral_write st (o := .comment args) trivial
  have start : ∀ {n}, Introduced (st.write (.comment args)) n ↔ Introduced st n :=
    introduced_neutral commented
  have first : Ordered lineNames ((st.write (.comment args)).writeLine
      (.process stuckProcess)).lines := by
    refine ordered_writeLine (commented.ordered holds.ordered) (by rintro n ⟨⟩) ?_
    rintro n ⟨⟩ before
    exact noProcess (start.mp before)
  have second : Ordered lineNames (((st.write (.comment args)).writeLine
      (.process stuckProcess)).writeLine (.event noSyncEvent)).lines := by
    refine ordered_writeLine first (by rintro n ⟨⟩) ?_
    rintro n ⟨⟩ before
    rcases introduced_writeLine.mp before with earlier | ⟨⟨⟩⟩
    exact noEvent (start.mp earlier)
  constructor
  · refine ordered_writeLine second ?_ ?_
    · intro n needed
      rw [List.mem_singleton.mp needed, introduced_writeLine, introduced_writeLine]
      exact .inl (.inr rfl)
    · rintro n ⟨⟩ before
      rcases introduced_writeLine.mp before with earlier | ⟨⟨⟩⟩
      rcases introduced_writeLine.mp earlier with earlier | ⟨⟨⟩⟩
      exact noLocation (start.mp earlier)
  · intro n introduced
    refine introduced_writeLine.mpr (.inl (introduced_writeLine.mpr (.inl
      (introduced_writeLine.mpr (.inl ?_)))))
    exact start.mpr (holds.keeps introduced)
  · intro _
    constructor
    · exact introduced_writeLine.mpr (.inl (introduced_writeLine.mpr (.inl
        (introduced_writeLine.mpr (.inr rfl)))))
    · exact introduced_writeLine.mpr (.inl (introduced_writeLine.mpr (.inr rfl)))
  · rintro ⟨⟩
  · exact holds.tables
  · intro process src tgt event attr inside
    have third := edge_mem_writeLine (by rintro ⟨⟩) inside
    have second := edge_mem_writeLine (by rintro ⟨⟩) third
    have first := edge_mem_writeLine (by rintro ⟨⟩) second
    exact holds.edges (commented.edges first)

/-- What is linked stays so while vectors are generated. -/
theorem linked_generating : Generating (Linked middle) (Present middle) where
  tables holds kind _ _ inside := holds.tables kind inside
  sync holds made := by
    refine holds.sync fun x inside => ?_
    rcases made x inside with known | ⟨added, process, event⟩
    · exact holds.present known
    · rw [process, event]
      exact holds.added added
  stuck holds missing := holds.addStuck missing _
  erase {st} holds s := by
    refine ⟨holds.ordered, holds.keeps, holds.added, holds.missing, ?_, holds.edges⟩
    intro kind label process inside
    exact holds.tables kind (mem_tableOf_erase inside)

end Linked

/-! ## The whole translation -/

theorem keepsNeutral_displayTable (env : Env) : Keeps neutralFrame (sDisplayTableOfEvents env) :=
  keeps_displayTable (fun st level args => neutral_write st (o := .message level args) trivial) env

/-- After the processes nothing is called `Stuck` or `nosync`. -/
theorem Declared.linked {env : Env} {processes : List Instance} {st : TrState}
    (apart : NamesApart env processes)
    (holds : Declared env processes (Utot.processNames env processes) st) :
    Linked st { st with addStuckProcess := true } := by
  constructor
  · exact holds.ordered
  · exact fun introduced => introduced
  · rintro ⟨⟩
  · intro _
    refine ⟨?_, ?_, ?_⟩
    · intro introduced
      exact apart.stuck (holds.processNames.mp introduced)
    · intro introduced
      rcases holds.events introduced with label | tau | ⟨owner, _, isLocal⟩
      · exact apart.reserved (.inr rfl) (holds.labels label).2
      · exact absurd tau.1 (by decide)
      · exact apart.reservedLocal (.inr rfl) isLocal
    · intro introduced
      exact apart.stuck (holds.locations introduced)
  · intro kind s process inside
    obtain ⟨listed, label⟩ := holds.tables inside
    exact ⟨holds.processNames.mpr listed, (holds.labels label).1⟩
  · exact fun inside => inside

/-- The event of every edge is `tau` or entered for its process in a table. -/
def EventsEntered (events : GlobalEvents) (lines : List Line) : Prop :=
  ∀ process src tgt event attr, Line.edge process src tgt event attr ∈ lines →
    event = tauEvent ∨ ∃ kind s, event = eventOf kind s ∧ process ∈ (tableOf kind events).procs s

/-- Whatever a translation names it has declared exactly once and before, and
the events of the edges are those the vectors are built from. -/
theorem declared_once_before_use {env : Env} {sysname : String} {tas : TimedAutomataSystem}
    {st' : TrState} (apart : NamesApart env tas.processes)
    (wellFormed : WellFormed env tas.processes)
    (run : exec (translateSystem env sysname tas) .initial = (.ok (), st')) :
    DeclaredOnce st'.lines ∧
      EventsEntered (exec (translateProcesses env sysname tas) .initial).2.events st'.lines := by
  rcases first : exec (translateProcesses env sysname tas) .initial with ⟨_ | _, middle⟩
  · unfold translateSystem at run
    rw [exec_bind_error first] at run
    cases run
  · unfold translateSystem at run
    rw [exec_bind_ok first] at run
    have declared := (translateProcesses_declares sysname apart wellFormed).returned rfl first
    have neutral := keepsNeutral_displayTable env middle
    rcases second : exec (sDisplayTableOfEvents env) middle with ⟨_ | _, shown⟩
    · rw [exec_bind_error second] at run
      cases run
    · rw [exec_bind_ok second] at run
      rw [second] at neutral
      have linked := (declared.neutral neutral).linked apart
      have final := (sGenerateSyncVectors_kept linked_generating).returned linked run
      refine ⟨declaredOnce_of_ordered final.ordered, ?_⟩
      intro process src tgt event attr inside
      exact declared.edges (neutral.edges (final.edges inside))

/-! ## A channel of a template -/

/-- The symbols of a template `P` with a channel `c` of its own. -/
def localEnv : Env :=
  envOfSymbols [⟨"t(0)", .prim .clock, false, some ⟨none⟩⟩, ⟨"c", .prim .channel, true, some ⟨none⟩⟩,
    ⟨"P", .prim .unknown, false, none⟩, ⟨"A", .prim .location, true, none⟩]

/-- One edge that uses the channel. -/
def localModel (kind : SyncKind) : TimedAutomataSystem :=
  ⟨⟨[0], [], []⟩, [{
    uid := 2, parameters := [], mapping := ∅, unbound := 0
    templ := { vars := [1], iodecl := [], functions := [], init := 3, states := [⟨3, none⟩], edges := [
      { actname := "", src := some 3, dst := some 3, select := [], guard := .constant 1 (.prim .bool)
        sync := some (.sync kind (.identifier 1 (.prim .channel)))
        assign := .constant 1 (.prim .int) }] } }]⟩

theorem synchronises_local {kind kind' : SyncKind} {owner s : String} {written : Symbol}
    (use : Synchronises localEnv (localModel kind).processes owner kind' written s) :
    owner = "P" ∧ kind' = kind ∧ s = "P_c" := by
  obtain ⟨ctx, q, e, channel, ⟨p, listed, r, ⟨m, inst, rfl⟩, member, selects⟩, sync, symbol, labelled,
    rfl⟩ := use
  cases List.mem_singleton.mp listed
  cases inst
  cases List.mem_singleton.mp member
  cases selects
  cases sync
  cases symbol
  have printed := labelled.symm.trans
    (show baseLabel localEnv _ 1 (.sync kind (.identifier 1 (.prim .channel))) ["P"] = .ok "P_c"
      from rfl)
  cases printed
  exact ⟨rfl, rfl, rfl⟩

/-- An emission on the channel is apart from the channel. -/
theorem namesApart_localModel : NamesApart localEnv (localModel .bang).processes := by
  have used : ∀ {id}, EventUsed localEnv (localModel .bang).processes id → id = "P_c_emit" := by
    rintro id ⟨owner, kind, written, s, use, rfl⟩
    obtain ⟨rfl, rfl, rfl⟩ := synchronises_local use
    rfl
  have isLocal : ∀ {owner s}, LocalLabel localEnv (localModel .bang).processes owner s →
      owner = "P" ∧ s = "P_c" := by
    rintro owner s ⟨kind, written, use, _⟩
    obtain ⟨rfl, rfl, rfl⟩ := synchronises_local use
    exact ⟨rfl, rfl⟩
  constructor
  · exact List.nodup_singleton "P"
  · decide
  · intro owner s label event
    rw [(isLocal label).2] at event
    exact absurd (used event) (by decide)
  · intro owner owner' s first second
    rw [(isLocal first).1, (isLocal second).1]
  · rintro id (rfl | rfl) event
    · exact absurd (used event) (by decide)
    · exact absurd (used event) (by decide)
  · rintro owner id (rfl | rfl) label
    · exact absurd (isLocal label).2 (by decide)
    · exact absurd (isLocal label).2 (by decide)

/-- A channel of a template that is only emitted. -/
theorem declared_once_local_emission :
    ∃ st', exec (translateSystem localEnv "S" (localModel .bang)) .initial = (.ok (), st') ∧
      DeclaredOnce st'.lines ∧ EventsEntered
        (exec (translateProcesses localEnv "S" (localModel .bang)) .initial).2.events st'.lines := by
  have run : exec (translateSystem localEnv "S" (localModel .bang)) .initial = (.ok (), _) := rfl
  refine ⟨_, run, declared_once_before_use namesApart_localModel ⟨?_, ?_⟩ run⟩
  · intro p listed
    cases List.mem_singleton.mp listed
    exact List.nodup_singleton _
  · intro p listed e member s ends
    cases List.mem_singleton.mp listed
    cases List.mem_singleton.mp member
    rcases ends with ends | ends <;> cases ends
    · exact ⟨_, List.mem_singleton_self _, rfl⟩
    · exact ⟨_, List.mem_singleton_self _, rfl⟩

/-- The CSP label of a channel of a template is introduced as a local event and
again as an event. -/
theorem local_csp_declared_twice :
    ∃ st', exec (translateSystem localEnv "S" (localModel .csp)) .initial = (.ok (), st') ∧
      ¬ DeclaredOnce st'.lines := by
  have lines : (exec (translateSystem localEnv "S" (localModel .csp)) .initial).2.lines =
      [.system "S", .process "P", .location "P" "A" [("initial", "")], .event "P_c", .event "P_c"] ++
      .edge "P" "A" "A" "P_c" [] ::
      [.process "Stuck", .event "nosync", .location "Stuck" "sink" [("initial", "")],
        .sync [⟨"P", "P_c", false⟩, ⟨"Stuck", "nosync", false⟩]] := by decide
  refine ⟨(exec (translateSystem localEnv "S" (localModel .csp)) .initial).2, Prod.ext rfl rfl,
    fun once => ?_⟩
  obtain ⟨counted, _⟩ := once _ _ _ lines (.event "P_c") (by decide)
  rw [lines] at counted
  exact absurd counted (by decide)

end Utot
