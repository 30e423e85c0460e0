import Utot.Run.Endings
import Utot.Run.Visits

/-!
# Output only grows

What a translation has written stays at the front of its output, whether it
returns or fails.
-/

namespace Utot

open Utap Library Tchecker

/-- More may have been written. -/
def growsFrame : Frame TrState where
  rel st st' := st.trace <+: st'.trace
  refl _ := List.prefix_rfl
  trans := List.IsPrefix.trans

theorem grows_write (st : TrState) (o : Output) : growsFrame.rel st (st.write o) :=
  List.prefix_append _ _

theorem grows_of_same {st st' : TrState} (same : st'.trace = st.trace) : growsFrame.rel st st' := by
  exact ⟨[], by rw [List.append_nil, same]⟩

/-- A step that writes at most. -/
abbrev Grows {α : Type} (m : Tr α) : Prop := Keeps growsFrame m

theorem keepsGrowth_write (o : Output) : Grows (write o) := Keeps.update fun st => grows_write st o

theorem keepsGrowth_line (l : Line) : Grows (writeLine l) := keepsGrowth_write (.line l)

theorem keepsGrowth_comment (args : List Arg) : Grows (commentln args) := keepsGrowth_write (.comment args)

theorem keepsGrowth_msg (verboseLevel level : Nat) (args : List Arg) :
    Grows (msg verboseLevel level args) :=
  keeps_message (fun st _ _ => grows_write st _) verboseLevel level args

theorem keepsGrowth_update {f : TrState → TrState} (same : ∀ st, (f st).trace = st.trace) :
    Grows (modify f : Tr Unit) := Keeps.update fun st => grows_of_same (same st)

section

variable {env : Env}

theorem keepsGrowth_declarations (p : Option Instance) (ctx : ContextPrefix) (decl : Declarations) :
    Grows (translateDeclarations env p ctx decl) :=
  keeps_translateDeclarations (fun st o (_ : DeclaresOnly (fun _ => True) o) => grows_write st o) env p
    fun _ _ _ => trivial

theorem keepsGrowth_edgeEvent (e : Edge) (ctx : ContextPrefix) (q : Instance) :
    Grows (edgeEvent env e ctx q) := by
  unfold edgeEvent
  split
  · exact Keeps.ret _
  · rename_i kind channel sync
    unfold sBuildEdgeLabel
    dsimp only [Expr.getSymbol?]
    cases channel.getSymbol? with
    | none => exact Keeps.lift _
    | some symbol =>
        refine Keeps.bind (keepsGrowth_msg _ _ _) fun _ => Keeps.liftBind fun s _ => ?_
        have event : Grows (declareEvent env symbol (.sync kind channel) (eventOf kind s) s) := by
          have finish : Grows (do
              writeLine (.event (eventOf kind s))
              modify fun st => { st with
                events := { st.events with
                  labels := st.events.labels.insert (eventOf kind s)
                  brodcasts := if sIsBroadcast env symbol then st.events.brodcasts.insert s
                    else st.events.brodcasts } } : Tr Unit) :=
            Keeps.bind (keepsGrowth_line _) fun _ => keepsGrowth_update fun _ => rfl
          refine Keeps.bind Keeps.read fun st => Keeps.branch (Keeps.branch ?_ finish) (Keeps.ret _)
          exact Keeps.bind (keepsGrowth_msg _ _ _) fun _ => finish
        have finish : Grows (do
            declareEvent env symbol (.sync kind channel) (eventOf kind s) s
            modify fun st => { st with events := recordEvent st.events kind s (stringOf ctx) }
            pure (eventOf kind s) : Tr String) :=
          Keeps.bind event fun _ => Keeps.bind (keepsGrowth_update fun _ => rfl) fun _ => Keeps.ret _
        refine Keeps.branch (Keeps.bind ?_ fun _ => finish) finish
        refine Keeps.bind Keeps.read fun st => Keeps.branch ?_ (Keeps.ret _)
        exact Keeps.bind (keepsGrowth_line _) fun _ => keepsGrowth_update fun _ => rfl
  · exact Keeps.lift _

theorem keepsGrowth_edge (process src tgt event : String) (attr : Attributes) :
    Grows (edge process src tgt event attr) := by
  refine Keeps.bind Keeps.read fun st => Keeps.branch ?_ (keepsGrowth_line _)
  refine Keeps.bind (keepsGrowth_comment _) fun _ => Keeps.bind (keepsGrowth_line _) fun _ => ?_
  exact Keeps.bind (keepsGrowth_update fun _ => rfl) fun _ => keepsGrowth_line _

theorem keepsGrowth_translateEdge (e : Edge) (ctx : ContextPrefix) (q : Instance) :
    Grows (sTranslateEdge env e ctx q) := by
  have finish : Grows (do
      let ev ← edgeEvent env e ctx q
      let src ← fromExcept (endName env e.src)
      let tgt ← fromExcept (endName env e.dst)
      assertTr (e.actname == "SKIP" || e.actname == "") "e.actname == \"SKIP\" || e.actname == \"\""
      let attr ← fromExcept (edgeAttributes env e ctx q)
      edge (stringOf ctx) src tgt ev attr : Tr Unit) := by
    refine Keeps.bind (keepsGrowth_edgeEvent e ctx q) fun ev => Keeps.bind (Keeps.lift _) fun src => ?_
    refine Keeps.bind (Keeps.lift _) fun tgt => Keeps.bind (Keeps.lift _) fun _ => ?_
    exact Keeps.bind (Keeps.lift _) fun attr => keepsGrowth_edge _ _ _ _ _
  exact Keeps.branch (Keeps.bind (keepsGrowth_comment _) fun _ => finish) finish

theorem keepsGrowth_instance (ctx : ContextPrefix) (q : Instance) (mapping : Mapping) :
    Grows (sTranslateInstance env ctx q mapping) := by
  have finish : Grows (do
      writeLine (.process (stringOf ctx))
      translateDeclarations env (mergeMapping q mapping) ctx
        (mergeMapping q mapping).templ.toDeclarations
      sTranslateStates env ctx (mergeMapping q mapping)
      sTranslateEdges env ctx (mergeMapping q mapping)
      write .blank : Tr Unit) := by
    refine Keeps.bind (keepsGrowth_line _) fun _ => Keeps.bind (keepsGrowth_declarations _ _ _) fun _ => ?_
    refine Keeps.bind (Keeps.forM fun st _ => ?_) fun _ => Keeps.bind (Keeps.forM fun e _ => ?_) fun _ =>
      keepsGrowth_write _
    · exact Keeps.bind (Keeps.lift _) fun _ => keepsGrowth_line _
    · exact keeps_edgeWithSelect e ctx _ _ fun q _ => keepsGrowth_translateEdge e ctx q
  refine Keeps.bind (keepsGrowth_update fun _ => rfl) fun _ => Keeps.bind (Keeps.lift _) fun _ => ?_
  exact Keeps.branch (Keeps.bind (keepsGrowth_comment _) fun _ => finish) finish

theorem keepsGrowth_process (p : Instance) : Grows (sTranslateProcess env p) := by
  refine Keeps.bind (keepsGrowth_comment _) fun _ =>
    Keeps.branch ?_ (keepsGrowth_instance _ p _)
  refine Keeps.bind (keepsGrowth_msg _ _ _) fun _ => ?_
  exact keeps_processRec p _ _ _ fun ctx m _ => keepsGrowth_instance ctx p m

/-- A translation starts its output with the name of the system. -/
theorem system_first (env : Env) (sysname : String) (tas : TimedAutomataSystem) (st : TrState) :
    st.trace ++ [.line (.system sysname)] <+: (exec (translateSystem env sysname tas) st).2.trace := by
  have rest : Grows (do
      translateDeclarations env none [] tas.globals
      registerIoSections env tas.globals
      tas.processes.forM (sTranslateProcess env) : Tr Unit) := by
    refine Keeps.bind (keepsGrowth_declarations _ _ _) fun _ => Keeps.bind ?_ fun _ =>
      Keeps.forM fun p _ => keepsGrowth_process p
    refine Keeps.branch (keepsGrowth_comment _) (Keeps.bind Keeps.read fun st => ?_)
    exact Keeps.bind (Keeps.lift _) fun allowed => keepsGrowth_update fun _ => rfl
  have last : Grows (do
      sDisplayTableOfEvents env
      sGenerateSyncVectors : Tr Unit) := by
    refine Keeps.bind (keeps_displayTable (fun st level args => grows_write st _) env) fun _ => ?_
    exact keeps_syncVectors (fun st o _ => grows_write st o) fun st _ _ => grows_of_same rfl
  exact Keeps.bind rest (fun _ => last) (st.writeLine (.system sysname))

end

end Utot
