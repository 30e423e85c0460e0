import Utot.Network.Vectors
import Utot.Order.Vectors
import Utot.Run.Achieved
import Utot.Run.Enumeration
import Utot.Run.Tables

/-!
# What a whole run leaves behind

A translation has three phases: the processes, the table of events, which is
only shown, and the vectors.  Edges and locations come from the first one, and
the vectors from the tables it fills.
-/

namespace Utot

open Utap Library Tchecker

section

variable {env : Env} {sysname : String} {tas : TimedAutomataSystem} {st st' : TrState}

/-- The state the vectors are generated in. -/
structure Phases (env : Env) (sysname : String) (tas : TimedAutomataSystem) (st st' : TrState)
    (middle shown : TrState) : Prop where
  processes : exec (translateProcesses env sysname tas) st = (.ok (), middle)
  events : shown.events = middle.events
  lines : shown.lines = middle.lines
  vectors : exec sGenerateSyncVectors shown = (.ok (), st')

/-- The events and the lines are those of the state before. -/
def shownFrame : Frame TrState where
  rel s s' := s'.events = s.events ∧ s'.lines = s.lines
  refl _ := ⟨rfl, rfl⟩
  trans first second := ⟨second.1.trans first.1, second.2.trans first.2⟩

theorem exists_phases (run : exec (translateSystem env sysname tas) st = (.ok (), st')) :
    ∃ middle shown, Phases env sysname tas st st' middle shown := by
  unfold translateSystem at run
  rcases first : exec (translateProcesses env sysname tas) st with ⟨_ | _, middle⟩
  · rw [exec_bind_error first] at run
    cases run
  · rw [exec_bind_ok first] at run
    have show' := keeps_displayTable (R := shownFrame)
      (fun s level args => ⟨rfl, s.lines_message level args⟩) env middle
    rcases second : exec (sDisplayTableOfEvents env) middle with ⟨_ | _, shown⟩
    · rw [exec_bind_error second] at run
      cases run
    · rw [exec_bind_ok second] at run
      rw [second] at show'
      exact ⟨middle, shown, first, show'.1, show'.2, run⟩

/-! ## Edges and locations -/

theorem mem_picked {pick : Line → Bool} {l : Line} {s : TrState} (picked : pick l = true) :
    l ∈ pickedLines pick s ↔ l ∈ s.lines := by
  unfold pickedLines
  rw [List.mem_filter]
  exact and_iff_left picked

/-- The lines of a kind, where there were none at the beginning. -/
theorem picked_of_appends {α : Type} {m : Tr α} {pick : Line → Bool} {P : List Line → Prop}
    (appends : Appends (pickedLines pick) m fun _ => P) (nothing : st.lines = []) {a : α}
    (run : exec m st = (.ok a, st')) : P (pickedLines pick st') := by
  obtain ⟨ls, added, holds⟩ := appends st st' a run
  have before : pickedLines pick st = [] := by
    unfold pickedLines
    rw [nothing]
    rfl
  rw [before, List.nil_append] at added
  rwa [added]

section

variable (nothing : st.lines = []) (run : exec (translateSystem env sysname tas) st = (.ok (), st'))

include nothing run

theorem enough_parameters : ∀ p ∈ tas.processes, p.unbound ≤ p.parameters.length :=
  (picked_of_appends appends_edgeLines nothing run).1

/-- An edge of the output is that of a visit. -/
theorem visit_of_edge {process src tgt event : String} {attr : List (String × String)}
    (listed : Line.edge process src tgt event attr ∈ st'.lines) :
    ∃ ctx q e, Visit env tas.processes ctx q e ∧
      EdgeLine env e ctx q (.edge process src tgt event attr) := by
  obtain ⟨enough, lines⟩ := picked_of_appends appends_edgeLines nothing run
  obtain ⟨v, member, line⟩ := exists_of_forall₂ lines.flip ((mem_picked rfl).mpr listed)
  exact ⟨v.ctx, v.inst, v.edge, (mem_visits enough).mp member, line⟩

theorem edge_of_visit {ctx : ContextPrefix} {q : Instance} {e : Edge}
    (visit : Visit env tas.processes ctx q e) : ∃ l ∈ st'.lines, EdgeLine env e ctx q l := by
  obtain ⟨enough, lines⟩ := picked_of_appends appends_edgeLines nothing run
  obtain ⟨l, listed, line⟩ := exists_of_forall₂ lines ((mem_visits (v := ⟨ctx, q, e⟩) enough).mpr visit)
  exact ⟨l, (List.mem_filter.mp listed).1, line⟩

omit nothing run in
theorem mem_places {processes : List Instance} (enough : ∀ p ∈ processes, p.unbound ≤ p.parameters.length)
    {ctx : ContextPrefix} {r : Instance} {s : State} :
    (ctx, r, s) ∈ places env processes ↔
      (∃ p ∈ processes, InstanceOf env p ctx r) ∧ s ∈ r.templ.states := by
  unfold places instances
  rw [List.mem_flatMap]
  constructor
  · rintro ⟨i, listed, inside⟩
    obtain ⟨p, member, one⟩ := List.mem_flatMap.mp listed
    obtain ⟨values, inRanges, rfl⟩ := List.mem_map.mp one
    obtain ⟨s, state, same⟩ := List.mem_map.mp inside
    cases same
    exact ⟨⟨p, member, instanceOf_iff.mpr ⟨enough p member, values, inRanges, rfl, rfl⟩⟩, state⟩
  · rintro ⟨⟨p, member, inst⟩, state⟩
    obtain ⟨_, values, inRanges, rfl, rfl⟩ := instanceOf_iff.mp inst
    refine ⟨(prefixOf env p values, instanceWith p values), ?_, List.mem_map.mpr ⟨s, state, rfl⟩⟩
    exact List.mem_flatMap.mpr ⟨p, member, List.mem_map.mpr ⟨values, inRanges, rfl⟩⟩

omit nothing run in
/-- What the last phase adds is no location of a process of the model. -/
theorem locations_kept {shown : TrState} (vectors : exec sGenerateSyncVectors shown = (.ok (), st'))
    {process id : String} {attr : List (String × String)}
    (listed : Line.location process id attr ∈ st'.lines) :
    Line.location process id attr ∈ shown.lines ∨ process = stuckProcess ∧ attr = [("initial", "")] := by
  let known (_ _ : String) : Prop := True
  let old (st : TrState) : Prop := ∀ process id attr, Line.location process id attr ∈ st.lines →
    Line.location process id attr ∈ shown.lines ∨ process = stuckProcess ∧ attr = [("initial", "")]
  have kept : Generating old known := by
    constructor
    · exact fun _ _ _ _ _ => trivial
    · intro st sv holds _ process id attr listed
      rw [TrState.lines_writeLine, List.mem_append] at listed
      rcases listed with before | added
      · exact holds process id attr before
      · cases List.mem_singleton.mp added
    · intro st holds _ process id attr listed
      change Line.location process id attr ∈ ((((st.write (.comment _)).writeLine
        (.process stuckProcess)).writeLine (.event noSyncEvent)).writeLine
        (.location stuckProcess "sink" [("initial", "")])).lines at listed
      simp only [TrState.lines_writeLine, TrState.lines_comment, List.mem_append, List.mem_singleton,
        reduceCtorEq, or_false] at listed
      rcases listed with before | added
      · exact holds process id attr before
      · cases added
        exact .inr ⟨rfl, rfl⟩
    · exact fun holds _ => holds
  exact (sGenerateSyncVectors_kept kept).returned (fun _ _ _ before => .inl before) vectors
    process id attr listed

/-- A location of a process of the model comes from a location of an instance, and
that of `Stuck` has no condition. -/
theorem place_of_location {process id : String} {attr : List (String × String)}
    (listed : Line.location process id attr ∈ st'.lines) :
    (∃ p ∈ tas.processes, ∃ ctx r, InstanceOf env p ctx r ∧ ∃ s ∈ r.templ.states,
      StateLine env ctx r s (.location process id attr)) ∨
      process = stuckProcess ∧ attr = [("initial", "")] := by
  obtain ⟨middle, shown, phases⟩ := exists_phases run
  rcases locations_kept phases.vectors listed with before | stuck
  · left
    rw [phases.lines] at before
    have lines := picked_of_appends (@appends_locationLines env _ _) nothing phases.processes
    obtain ⟨⟨ctx, r, s⟩, member, line⟩ := exists_of_forall₂ lines.flip ((mem_picked rfl).mpr before)
    obtain ⟨⟨p, process', inst⟩, state⟩ := (mem_places (enough_parameters nothing run)).mp member
    exact ⟨p, process', ctx, r, inst, s, state, line⟩
  · exact .inr stuck

theorem location_of_place {p : Instance} (process : p ∈ tas.processes) {ctx : ContextPrefix}
    {r : Instance} (inst : InstanceOf env p ctx r) {s : State} (state : s ∈ r.templ.states) :
    ∃ l ∈ st'.lines, StateLine env ctx r s l := by
  obtain ⟨middle, shown, phases⟩ := exists_phases run
  have lines := picked_of_appends (@appends_locationLines env _ _) nothing phases.processes
  obtain ⟨l, listed, line⟩ := exists_of_forall₂ lines
    ((mem_places (enough_parameters nothing run)).mpr ⟨⟨p, process, inst⟩, state⟩)
  refine ⟨l, ?_, line⟩
  have grown := keeps_syncVectors (fun st o _ => grows_write st o) (fun st _ _ => grows_of_same rfl) shown
  rw [phases.vectors] at grown
  apply lines_grow grown
  rw [phases.lines]
  exact (List.mem_filter.mp listed).1

/-! ## Vectors -/

def isSync : Line → Bool
  | .sync _ => true
  | _ => false

omit run in
/-- No vector is written for the processes. -/
theorem no_vectors {middle : TrState}
    (processes : exec (translateProcesses env sysname tas) st = (.ok (), middle)) :
    middle.vectors = [] := by
  have states (ctx : ContextPrefix) (r : Instance) :
      Appends (pickedLines isSync) (sTranslateStates env ctx r) fun _ ls => ls = [] :=
    Appends.silent (silent_states (fun _ _ _ => rfl) _ _) fun _ => rfl
  have edges (ctx : ContextPrefix) (r : Instance) :
      Appends (pickedLines isSync) (sTranslateEdges env ctx r) fun _ ls => ls = [] :=
    Appends.silent (silent_translateEdges (fun _ => rfl) (fun _ _ _ _ _ => rfl) _ _) fun _ => rfl
  obtain ⟨_, blocks, rounds, lines⟩ := picked_of_appends (appends_undeclared
    ⟨fun _ _ => rfl, fun _ _ _ _ _ => rfl⟩ (fun _ => rfl) (fun _ => rfl) states edges) nothing processes
  have empty : pickedLines isSync middle = [] := by
    rw [lines, List.flatten_eq_nil_iff]
    intro block listed
    obtain ⟨_, _, _, _, rfl, rfl, nothing'⟩ := exists_of_forall₂ rounds.flip listed
    exact nothing'
  unfold TrState.vectors vectorsOf
  rw [List.filterMap_eq_nil_iff]
  intro l listed
  cases l with
  | sync v =>
      have member : Line.sync v ∈ pickedLines isSync middle := (mem_picked rfl).mpr listed
      rw [empty] at member
      cases member
  | _ => rfl

/-- The vectors of the output are those of the labels in the tables the processes
leave behind. -/
theorem mem_vectors {v : SyncVector} :
    ∃ middle, exec (translateProcesses env sysname tas) st = (.ok (), middle) ∧
      (v ∈ vectorsOf st'.lines ↔
        (∃ s, v ∈ labelVectors middle.events s) ∨ v ∈ sharedVectors middle.events) := by
  obtain ⟨middle, shown, phases⟩ := exists_phases run
  have before : shown.vectors = [] := by
    rw [← no_vectors nothing phases.processes]
    unfold TrState.vectors
    rw [phases.lines]
  obtain ⟨added, written, exact⟩ := sGenerateSyncVectors_exact.returned ⟨before, phases.events⟩
    phases.vectors
  refine ⟨middle, phases.processes, ?_⟩
  rw [← exact v, ← List.nil_append added, ← written]
  rfl

end

end

end Utot
