import Utot.Network.Preservation
import Utot.Run.DeclaredLines
import Utot.Run.Growth

/-!
# The layout of the output

A translation writes the line of the system, the lines of the global declarations,
for one instance after the other the lines of the instance, and behind them the
vectors.  The lines of the process `Stuck` stand in front of the first vector with
`nosync`, if there is one.
-/

namespace Utot

open Utap Library Tchecker

def isEvent : Line → Bool
  | .event _ => true
  | _ => false

/-- The edges of an instance, with the events they introduce. -/
structure EdgeLines (env : Env) (ctx : ContextPrefix) (r : Instance) (ls : List Line) : Prop where
  edges : List.Forall₂ (VisitLine env) (visitsIn env ctx r) (ls.filter isEdge)
  others : ∀ l ∈ ls, isEdge l = true ∨ isEvent l = true

/-- The lines of an instance: its name, its declarations, its locations and its edges. -/
def InstanceLines (env : Env) (ctx : ContextPrefix) (r : Instance) (ls : List Line) : Prop :=
  ∃ declared located drawn, LinesOfVariables env (some r) ctx r.templ.vars declared ∧
    List.Forall₂ (StateLine env ctx r) r.templ.states located ∧ EdgeLines env ctx r drawn ∧
    ls = .process (stringOf ctx) :: (declared ++ (located ++ drawn))

/-- The lines in front of the vectors. -/
def ModelLines (env : Env) (sysname : String) (tas : TimedAutomataSystem) (ls : List Line) : Prop :=
  ∃ front blocks, LinesOfVariables env none [] tas.globals.vars.tail front ∧
    List.Forall₂ (fun i => InstanceLines env i.1 i.2) (instances env tas.processes) blocks ∧
    ls = .system sysname :: (front ++ blocks.flatten)

/-- The lines of the process `Stuck`. -/
def stuckLines : List Line :=
  [.process stuckProcess, .event noSyncEvent, .location stuckProcess "sink" [("initial", "")]]

/-- A process takes part with the event of one of its visited edges. -/
def Offered (env : Env) (processes : List Instance) (process event : String) : Prop :=
  ∃ kind written s, Synchronises env processes process kind written s ∧ event = eventOf kind s

/-- The lines behind the processes; `Stuck` may be missing. -/
inductive Closing (env : Env) (processes : List Instance) : Bool → List Line → Prop where
  | free {vectors : List SyncVector}
      (offered : ∀ v ∈ vectors, ∀ x ∈ v, Offered env processes x.process x.event) :
      Closing env processes true (vectors.map .sync)
  | blocked {before after : List SyncVector}
      (offered : ∀ v ∈ before, ∀ x ∈ v, Offered env processes x.process x.event)
      (extended : ∀ v ∈ after, ∀ x ∈ v, Offered env processes x.process x.event ∨
        x.process = stuckProcess ∧ x.event = noSyncEvent) :
      Closing env processes false (before.map .sync ++ (stuckLines ++ after.map .sync))

section

variable {env : Env} {sysname : String} {tas : TimedAutomataSystem} {st st' : TrState}

/-! ## In front of the vectors -/

/-- Every line is picked. -/
abbrev anyLine : Line → Bool := fun _ => true

theorem pickedLines_any (st : TrState) : pickedLines anyLine st = st.lines := List.filter_true _

theorem appends_any {α : Type} {m : Tr α} {P : α → List Line → Prop} (appends : Appends TrState.lines m P) :
    Appends (pickedLines anyLine) m P := by
  intro st st' a run
  rw [pickedLines_any, pickedLines_any]
  exact appends st st' a run

theorem growing_translateEdges (ctx : ContextPrefix) (r : Instance) :
    Keeps (growing TrState.lines) (sTranslateEdges env ctx r) := by
  have grows : Grows (sTranslateEdges env ctx r) := Keeps.forM fun e _ =>
    keeps_edgeWithSelect e _ _ _ fun q _ => keepsGrowth_translateEdge e _ q
  refine grows.weaken fun st st' longer => ?_
  obtain ⟨rest, same⟩ : st.trace <+: st'.trace := longer
  refine ⟨linesOf rest, ?_⟩
  unfold TrState.lines linesOf
  rw [← same, List.filterMap_append]

/-- Edges add their lines, and events. -/
theorem appends_drawn (ctx : ContextPrefix) (r : Instance) :
    Appends TrState.lines (sTranslateEdges env ctx r) fun _ => EdgeLines env ctx r := by
  have drawn := Appends.unfiltered (growing_translateEdges ctx r) (@appends_edges env ctx r)
  have silent := @silent_translateEdges env (fun l => !(isEdge l || isEvent l)) (fun _ => rfl)
    (fun _ _ _ _ _ => rfl) ctx r
  have others := Appends.unfiltered (growing_translateEdges ctx r)
    (Appends.silent (P := fun _ ls => ls = []) silent fun _ => rfl)
  refine (drawn.and others).weaken fun _ ls added => ⟨added.1, fun l listed => ?_⟩
  have known := List.filter_eq_nil_iff.mp added.2 l listed
  rwa [Bool.not_eq_true, Bool.not_eq_false', Bool.or_eq_true] at known

/-- Everything up to the synchronisation vectors. -/
theorem appends_model : Appends TrState.lines (translateProcesses env sysname tas) fun _ =>
    ModelLines env sysname tas := by
  have inst (ctx : ContextPrefix) (p : Instance) (m : Mapping) :
      Appends (pickedLines anyLine) (sTranslateInstance env ctx p m) fun _ =>
        InstanceLines env ctx (mergeMapping p m) := by
    refine (appends_instance rfl (appends_declarations (fun _ _ => rfl) _ _ _)
      (appends_states (fun _ _ _ => rfl) _ _) (appends_any (appends_drawn _ _))).weaken fun _ ls added => ?_
    obtain ⟨declared, located, drawn, cells, states, edges, rfl⟩ := added
    exact ⟨declared, located, drawn, cells, states, edges, rfl⟩
  have processes := appends_translateProcesses (B := InstanceLines env)
    (show [Line.system sysname].filter anyLine = [.system sysname] from rfl)
    (appends_declarations (fun _ _ => rfl) none [] tas.globals)
    fun p _ values _ => inst (prefixOf env p values) p _
  intro st st' a run
  obtain ⟨ls, added, _, front, blocks, globals, rounds, rfl⟩ := processes st st' a run
  rw [pickedLines_any, pickedLines_any] at added
  exact ⟨_, added, front, blocks, globals, rounds, rfl⟩

/-! ## The vectors -/

/-- What is written while vectors are generated; the flag says whether `Stuck` is missing. -/
structure Closes (env : Env) (processes : List Instance) (middle st : TrState) : Prop where
  tables : ∀ kind {s process}, process ∈ (tableOf kind st.events).procs s →
    Offered env processes process (eventOf kind s)
  closing : ∃ ls, st.lines = middle.lines ++ ls ∧ Closing env processes st.addStuckProcess ls

theorem Closing.snoc {processes : List Instance} {missing : Bool} {ls : List Line} {v : SyncVector}
    (closing : Closing env processes missing ls)
    (usable : ∀ x ∈ v, Usable (Offered env processes) missing x.process x.event) :
    Closing env processes missing (ls ++ [.sync v]) := by
  cases closing with
  | @free vectors offered =>
      have more : vectors.map Line.sync ++ [.sync v] = (vectors ++ [v]).map Line.sync := by
        rw [List.map_append, List.map_singleton]
      rw [more]
      refine .free fun u listed x inside => ?_
      rcases List.mem_append.mp listed with before | last
      · exact offered u before x inside
      · cases List.mem_singleton.mp last
        exact (usable x inside).resolve_right fun stuck => nomatch stuck.1
  | @blocked before after offered extended =>
      have more : before.map Line.sync ++ (stuckLines ++ after.map Line.sync) ++ [.sync v] =
          before.map Line.sync ++ (stuckLines ++ (after ++ [v]).map Line.sync) := by
        rw [List.map_append, List.map_singleton, List.append_assoc, List.append_assoc]
      rw [more]
      refine .blocked offered fun u listed x inside => ?_
      rcases List.mem_append.mp listed with before | last
      · exact extended u before x inside
      · cases List.mem_singleton.mp last
        exact (usable x inside).imp_right And.right

theorem Closing.stuck {processes : List Instance} {ls : List Line} (closing : Closing env processes true ls) :
    Closing env processes false (ls ++ stuckLines) := by
  cases closing with
  | free offered =>
      have nothing : ∀ v ∈ ([] : List SyncVector), ∀ x ∈ v, Offered env processes x.process x.event ∨
        x.process = stuckProcess ∧ x.event = noSyncEvent := nofun
      exact .blocked offered nothing

theorem closes_generating (processes : List Instance) (middle : TrState) :
    Generating (Closes env processes middle) (Offered env processes) where
  tables holds kind _ _ inside := holds.tables kind inside
  sync {st sv} holds made := by
    obtain ⟨ls, lines, closing⟩ := holds.closing
    have longer : Closing env processes st.addStuckProcess (ls ++ [.sync (elements sv)]) := closing.snoc made
    refine ⟨holds.tables, _, ?_, longer⟩
    rw [TrState.lines_writeLine, lines, List.append_assoc]
  stuck {st} holds missing := by
    obtain ⟨ls, lines, closing⟩ := holds.closing
    rw [missing] at closing
    refine ⟨holds.tables, ls ++ stuckLines, ?_, closing.stuck⟩
    change ((((st.write (.comment _)).writeLine (.process stuckProcess)).writeLine
      (.event noSyncEvent)).writeLine (.location stuckProcess "sink" [("initial", "")])).lines = _
    simp only [TrState.lines_writeLine, TrState.lines_comment, lines, List.append_assoc]
    rfl
  erase holds s := ⟨fun kind _ _ inside => holds.tables kind (mem_tableOf_erase inside), holds.closing⟩

/-! ## The whole output -/

/-- The output is made of the lines of the model and of those behind the processes. -/
theorem layout (fresh : st.events = .empty) (nothing : st.lines = [])
    (run : exec (translateSystem env sysname tas) st = (.ok (), st')) :
    ∃ body closing, st'.lines = body ++ closing ∧ ModelLines env sysname tas body ∧
      Closing env tas.processes st'.addStuckProcess closing := by
  obtain ⟨middle, shown, phases⟩ := exists_phases run
  obtain ⟨body, lines, model⟩ := appends_model st middle () phases.processes
  rw [nothing, List.nil_append] at lines
  have none : Closing env tas.processes true [] := @Closing.free env tas.processes [] nofun
  have start : Closes env tas.processes shown { shown with addStuckProcess := true } := by
    refine ⟨fun kind s process inside => ?_, [], (List.append_nil _).symm, none⟩
    change process ∈ (tableOf kind shown.events).procs s at inside
    rw [phases.events] at inside
    obtain ⟨written, use⟩ := (tables_exact fresh phases.processes kind s process).mp inside
    exact ⟨kind, written, s, use, rfl⟩
  obtain ⟨closing, added, closed⟩ :=
    ((sGenerateSyncVectors_kept (closes_generating tas.processes shown)).returned start phases.vectors).closing
  rw [phases.lines, lines] at added
  exact ⟨body, closing, added, model, closed⟩

theorem layout_relay : ∃ body closing, relayRun.lines = body ++ closing ∧
    ModelLines relayEnv "relay" relayModel body ∧
    Closing relayEnv relayModel.processes relayRun.addStuckProcess closing :=
  layout rfl rfl run_relay

end

end Utot
