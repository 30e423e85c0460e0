import Utot.Library.Achieving
import Utot.Run.Growth
import Utot.Run.Lines

/-!
# What a returned translation has done

Each part of a translation that returns has been run: the lines of every
declaration are in the output, and the attributes of every location and every
visited edge have been translated.
-/

namespace Utot

open Utap Library Tchecker

/-! ## Lines that stay -/

/-- Lines with the property are in the output. -/
def HasLines (P : List Line → Prop) (st : TrState) : Prop := ∃ ls, P ls ∧ ∀ l ∈ ls, l ∈ st.lines

theorem lines_grow {st st' : TrState} (grows : growsFrame.rel st st') : ∀ l ∈ st.lines, l ∈ st'.lines := by
  obtain ⟨rest, same⟩ : st.trace <+: st'.trace := grows
  intro l inside
  unfold TrState.lines linesOf at inside ⊢
  rw [← same, List.filterMap_append]
  exact List.mem_append_left _ inside

theorem stable_hasLines (P : List Line → Prop) : growsFrame.Stable (HasLines P) := by
  rintro st st' grows ⟨ls, holds, inside⟩
  exact ⟨ls, holds, fun l listed => lines_grow grows l (inside l listed)⟩

theorem stable_always (P : Prop) : growsFrame.Stable fun _ => P := fun _ _ _ holds => holds

theorem achieves_appended {α : Type} {m : Tr α} {P : List Line → Prop}
    (appends : Appends TrState.lines m fun _ ls => P ls) : Achieves m (HasLines P) := by
  intro st a st' run
  obtain ⟨ls, added, holds⟩ := appends st st' a run
  refine ⟨ls, holds, fun l listed => ?_⟩
  rw [added]
  exact List.mem_append_right _ listed

/-! ## Down the loops -/

section

variable {C : TrState → Prop} (stable : growsFrame.Stable C) {env : Env}

include stable

theorem achieves_forRange {min max i : Int} {body : Int → Tr Unit} (lower : min ≤ i) (upper : i ≤ max)
    (round : Achieves (body i) C) (keeps : ∀ j, Grows (body j)) :
    Achieves (forRange min max body) C := by
  have rounds : Achieves ((intRange min max).forM body) C :=
    Achieves.forM (mem_intRange.mpr ⟨lower, upper⟩) stable round fun j _ => keeps j
  exact Achieves.first stable rounds fun _ => Keeps.branch (Keeps.lift _) (Keeps.ret _)

theorem achieves_edgeWithSelect {e : Edge} {ctx : ContextPrefix} {select : List Symbol} {p q : Instance}
    (selects : Selects env select p q) (visit : Achieves (sTranslateEdge env e ctx q) C) :
    Achieves (sTranslateEdgeWithSelect env e ctx select p) C := by
  induction selects with
  | done => exact visit
  | bind bounds lower upper _ ih =>
      apply Achieves.liftBind
      intro found same
      rw [bounds] at same
      cases same
      exact achieves_forRange stable lower upper (ih visit) fun j =>
        keeps_edgeWithSelect e ctx _ _ fun q _ => keepsGrowth_translateEdge e ctx q

theorem achieves_processRec {p : Instance} {n : Nat} {ctx ctx' : ContextPrefix} {m m' : Mapping}
    (inst : Instantiates env p n ctx m ctx' m') (visit : Achieves (sTranslateInstance env ctx' p m') C) :
    Achieves (sTranslateProcessRec env p n ctx m) C := by
  induction inst with
  | done => exact visit
  | bind parameter bounds lower upper _ ih =>
      apply Achieves.liftBind
      intro s found
      have same := orAssert_eq_ok.mp found
      rw [parameter] at same
      cases same
      apply Achieves.liftBind
      intro range same
      rw [bounds] at same
      cases same
      exact achieves_forRange stable lower upper (ih visit) fun j =>
        keeps_processRec p _ _ _ fun ctx m _ => keepsGrowth_instance ctx p m

omit stable in
/-- What follows the line of a process. -/
theorem achieves_instance {ctx : ContextPrefix} {p : Instance} {m : Mapping}
    (body : Achieves (do
      translateDeclarations env (mergeMapping p m) ctx (mergeMapping p m).templ.toDeclarations
      sTranslateStates env ctx (mergeMapping p m)
      sTranslateEdges env ctx (mergeMapping p m)
      write .blank : Tr Unit) C) : Achieves (sTranslateInstance env ctx p m) C := by
  refine Achieves.later fun _ => Achieves.later fun _ => Achieves.branch ?_ ?_
  · exact Achieves.later fun _ => Achieves.later fun _ => body
  · exact Achieves.later fun _ => body

theorem achieves_declarations {ctx : ContextPrefix} {p : Instance} {m : Mapping}
    (declared : Achieves (translateDeclarations env (mergeMapping p m) ctx
      (mergeMapping p m).templ.toDeclarations) C) : Achieves (sTranslateInstance env ctx p m) C := by
  apply achieves_instance
  refine Achieves.first stable declared fun _ => Keeps.bind (Keeps.forM fun st _ => ?_) fun _ =>
    Keeps.bind (Keeps.forM fun e _ => ?_) fun _ => keepsGrowth_write _
  · exact Keeps.bind (Keeps.lift _) fun _ => keepsGrowth_line _
  · exact keeps_edgeWithSelect e ctx _ _ fun q _ => keepsGrowth_translateEdge e ctx q

theorem achieves_state {ctx : ContextPrefix} {p : Instance} {m : Mapping} {s : State}
    (member : s ∈ (mergeMapping p m).templ.states)
    (translated : Achieves (sTranslateState env ctx (mergeMapping p m) s) C) :
    Achieves (sTranslateInstance env ctx p m) C := by
  apply achieves_instance
  have states : Achieves (sTranslateStates env ctx (mergeMapping p m)) C :=
    Achieves.forM member stable translated fun s _ =>
      Keeps.bind (Keeps.lift _) fun _ => keepsGrowth_line _
  refine Achieves.later fun _ => Achieves.first stable states fun _ =>
    Keeps.bind (Keeps.forM fun e _ => ?_) fun _ => keepsGrowth_write _
  exact keeps_edgeWithSelect e ctx _ _ fun q _ => keepsGrowth_translateEdge e ctx q

theorem achieves_edge {ctx : ContextPrefix} {p q : Instance} {m : Mapping} {e : Edge}
    (visited : VisitIn env (mergeMapping p m) q e) (visit : Achieves (sTranslateEdge env e ctx q) C) :
    Achieves (sTranslateInstance env ctx p m) C := by
  apply achieves_instance
  have edges : Achieves (sTranslateEdges env ctx (mergeMapping p m)) C :=
    Achieves.forM visited.1 stable (achieves_edgeWithSelect stable visited.2 visit) fun e _ =>
      keeps_edgeWithSelect e ctx _ _ fun q _ => keepsGrowth_translateEdge e ctx q
  exact Achieves.later fun _ => Achieves.later fun _ =>
    Achieves.first stable edges fun _ => keepsGrowth_write _

/-! ## From the system -/

variable {sysname : String} {tas : TimedAutomataSystem}

/-- What the first part of a translation achieves is kept to its end. -/
theorem achieves_system (processes : Achieves (translateProcesses env sysname tas) C) :
    Achieves (translateSystem env sysname tas) C := by
  refine Achieves.first stable processes fun _ => Keeps.bind ?_ fun _ => ?_
  · exact keeps_displayTable (fun st level args => grows_write st _) env
  · exact keeps_syncVectors (fun st o _ => grows_write st o) fun st _ _ => grows_of_same rfl

theorem achieves_globals (declared : Achieves (translateDeclarations env none [] tas.globals) C) :
    Achieves (translateSystem env sysname tas) C := by
  apply achieves_system stable
  refine Achieves.later fun _ => Achieves.first stable declared fun _ => Keeps.bind ?_ fun _ =>
    Keeps.forM fun p _ => keepsGrowth_process p
  refine Keeps.branch (keepsGrowth_comment _) (Keeps.bind Keeps.read fun st => ?_)
  exact Keeps.bind (Keeps.lift _) fun allowed => keepsGrowth_update fun _ => rfl

theorem achieves_instanceOf {p : Instance} (listed : p ∈ tas.processes) {ctx : ContextPrefix} {m : Mapping}
    (inst : Instantiates env p p.unbound [env.getName p.uid] p.mapping ctx m)
    (visit : Achieves (sTranslateInstance env ctx p m) C) : Achieves (translateSystem env sysname tas) C := by
  have instances := achieves_processRec stable inst visit
  have process : Achieves (sTranslateProcess env p) C := by
    rw [process_eq]
    refine Achieves.later fun _ => Achieves.branch ?_ instances
    exact Achieves.later fun _ => instances
  apply achieves_system stable
  exact Achieves.later fun _ => Achieves.later fun _ => Achieves.later fun _ =>
    Achieves.forM listed stable process fun p _ => keepsGrowth_process p

end

/-! ## What has been done -/

section

variable {env : Env} {sysname : String} {tas : TimedAutomataSystem} {st st' : TrState}
  (run : exec (translateSystem env sysname tas) st = (.ok (), st'))

include run

/-- The lines of a global declaration are in the output. -/
theorem global_lines {c : Symbol} (listed : c ∈ tas.globals.vars.tail) :
    HasLines (DeclarationLines env none (addPrefix [] (env.getName c)) (stripLabels (env.getType c))
      (env.initialiser c)) st' := by
  refine achieves_globals (stable_hasLines _) ?_ st () st' run
  exact Achieves.forM listed (stable_hasLines _) (achieves_appended (appends_declareVariable [] c))
    fun s _ => keeps_declareVariable env none fun st o _ => grows_write st o

variable {p q : Instance} (listed : p ∈ tas.processes) {ctx : ContextPrefix} (inst : InstanceOf env p ctx q)

include listed inst

/-- The lines of a declaration of an instance are in the output. -/
theorem local_lines {c : Symbol} (declared : c ∈ q.templ.vars) :
    HasLines (DeclarationLines env (some q) (addPrefix ctx (env.getName c))
      (stripLabels (env.getType c)) (env.initialiser c)) st' := by
  obtain ⟨m, inst, rfl⟩ := inst
  refine achieves_instanceOf (stable_hasLines _) listed inst ?_ st () st' run
  apply achieves_declarations (stable_hasLines _)
  exact Achieves.forM declared (stable_hasLines _) (achieves_appended (appends_declareVariable ctx c))
    fun s _ => keeps_declareVariable env _ fun st o _ => grows_write st o

/-- The attributes of a location have been translated. -/
theorem state_translated {s : State} (member : s ∈ q.templ.states) :
    ∃ attr, stateAttributes env ctx q s = .ok attr := by
  obtain ⟨m, inst, rfl⟩ := inst
  refine achieves_instanceOf (stable_always _) listed inst ?_ st () st' run
  apply achieves_state (stable_always _) member
  exact Achieves.liftBind fun attr translated st _ _ _ => ⟨attr, translated⟩

/-- The attributes of a visited edge have been translated. -/
theorem edge_translated {r : Instance} {e : Edge} (visited : VisitIn env q r e) :
    ∃ attr, edgeAttributes env e ctx r = .ok attr := by
  obtain ⟨m, inst, rfl⟩ := inst
  refine achieves_instanceOf (stable_always _) listed inst ?_ st () st' run
  apply achieves_edge (stable_always _) visited
  have finish : Achieves (do
      let ev ← edgeEvent env e ctx r
      let src ← fromExcept (endName env e.src)
      let tgt ← fromExcept (endName env e.dst)
      assertTr (e.actname == "SKIP" || e.actname == "") "e.actname == \"SKIP\" || e.actname == \"\""
      let attr ← fromExcept (edgeAttributes env e ctx r)
      edge (stringOf ctx) src tgt ev attr : Tr Unit) fun _ =>
        ∃ attr, edgeAttributes env e ctx r = .ok attr :=
    Achieves.later fun _ => Achieves.later fun _ => Achieves.later fun _ => Achieves.later fun _ =>
      Achieves.liftBind fun attr translated _ _ _ _ => ⟨attr, translated⟩
  exact Achieves.branch (Achieves.later fun _ => finish) finish

end

end Utot
