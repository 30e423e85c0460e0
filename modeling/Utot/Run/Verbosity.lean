import Utot.Program.CommandLine
import Utot.Run.SideBySide

/-!
# What the level of verbosity changes

Two translations of one model at different levels of verbosity end alike and
write the same, messages apart: the level decides about messages only.
-/

namespace Utot

open Utap Library Tchecker

/-- The same model at another level of verbosity. -/
def Utap.Env.atLevel (env : Env) (level : Nat) : Env := { env with verboseLevel := level }

/-- What the outputter has written. -/
def written (trace : List Output) : List Output := trace.filter fun o => !isMessage o

/-- The states differ in messages at most. -/
structure SameWritten (st st' : TrState) : Prop where
  trace : written st.trace = written st'.trace
  tauGenerated : st.tauGenerated = st'.tauGenerated
  events : st.events = st'.events
  localEvents : st.localEvents = st'.localEvents
  addStuckProcess : st.addStuckProcess = st'.addStuckProcess

theorem sameWritten_equivalence : Equivalence SameWritten where
  refl _ := ⟨rfl, rfl, rfl, rfl, rfl⟩
  symm same := ⟨same.trace.symm, same.tauGenerated.symm, same.events.symm, same.localEvents.symm,
    same.addStuckProcess.symm⟩
  trans first second := ⟨first.trace.trans second.trace,
    first.tauGenerated.trans second.tauGenerated, first.events.trans second.events,
    first.localEvents.trans second.localEvents, first.addStuckProcess.trans second.addStuckProcess⟩

/-! ## Values do not depend on the level -/

section

variable {env : Env} {level : Nat} {p : Option Instance}

theorem evalAux_atLevel (depth : Nat) : evalAux (env.atLevel level) depth p = evalAux env depth p := by
  induction depth with
  | zero => rfl
  | succ depth ih =>
      funext e
      cases e with
      | binary k l r t =>
          cases k
          case array =>
            simp only [evalAux, ih]
            rfl
          all_goals simp only [evalAux, ih]
      | unary k x t => cases k <;> simp only [evalAux, ih]
      | nary k es t => cases k <;> simp only [evalAux, ih]
      | identifier s t =>
          simp only [evalAux, ih]
          rfl
      | _ => simp only [evalAux, ih]

theorem evalIntegerConstant_atLevel :
    evalIntegerConstant (env.atLevel level) p = evalIntegerConstant env p := evalAux_atLevel env.stack

theorem computeRangeBounds_atLevel :
    computeRangeBounds (env.atLevel level) p = computeRangeBounds env p := by
  unfold computeRangeBounds
  rw [evalIntegerConstant_atLevel]

theorem isOneDimArrayType_atLevel :
    isOneDimArrayType (env.atLevel level) p = isOneDimArrayType env p := by
  funext t
  unfold isOneDimArrayType
  rw [computeRangeBounds_atLevel]

theorem areAllEqualsInList_atLevel :
    areAllEqualsInList (env.atLevel level) p = areAllEqualsInList env p := by
  funext init
  unfold areAllEqualsInList
  rw [computeRangeBounds_atLevel]
  rfl

theorem isOneDimArrayVariable_atLevel :
    isOneDimArrayVariable (env.atLevel level) p = isOneDimArrayVariable env p := by
  funext e
  unfold isOneDimArrayVariable
  rw [isOneDimArrayType_atLevel, areAllEqualsInList_atLevel]
  rfl

theorem oneDimDeclaration_atLevel :
    oneDimDeclaration (env.atLevel level) p = oneDimDeclaration env p := by
  funext t init
  unfold oneDimDeclaration
  rw [isOneDimArrayType_atLevel, areAllEqualsInList_atLevel]

theorem variableBounds_atLevel : variableBounds (env.atLevel level) p = variableBounds env p := by
  funext t
  unfold variableBounds
  rw [computeRangeBounds_atLevel]

theorem translateEventAux_atLevel (depth : Nat) :
    translateEventAux (env.atLevel level) depth p = translateEventAux env depth p := by
  induction depth with
  | zero => rfl
  | succ depth ih =>
      funext e ctx
      cases e with
      | binary k l r t =>
          cases k <;> simp only [translateEventAux, ih, evalIntegerConstant_atLevel,
            computeRangeBounds_atLevel]
      | identifier s t =>
          simp only [translateEventAux, ih]
          rfl
      | _ => simp only [translateEventAux, ih]

theorem translateAux_atLevel (depth : Nat) :
    translateAux (env.atLevel level) depth p = translateAux env depth p := by
  induction depth with
  | zero => rfl
  | succ depth ih =>
      funext e ctx
      cases e with
      | binary k l r t =>
          cases k <;> simp only [translateAux, ih, evalIntegerConstant_atLevel,
            isOneDimArrayVariable_atLevel]
      | unary k x t => cases k <;> simp only [translateAux, ih]
      | identifier s t =>
          simp only [translateAux, ih]
          rfl
      | _ => simp only [translateAux, ih, translateEventAux_atLevel]

theorem translateExpression_atLevel :
    translateExpression (env.atLevel level) p = translateExpression env p :=
  translateAux_atLevel env.stack

theorem translateAssignment_atLevel (ctx : ContextPrefix) : ∀ e : Expr,
    translateAssignment (env.atLevel level) p e ctx = translateAssignment env p e ctx
  | .binary k l r t => by
      have left := translateAssignment_atLevel ctx l
      have right := translateAssignment_atLevel ctx r
      cases k <;> simp only [translateAssignment, assignBinaryOp, left, right,
        translateExpression_atLevel]
  | .unary k x t => by
      simp only [translateAssignment, assignBinaryOp, translateExpression_atLevel]
  | .constant v t => by simp only [translateAssignment, evalIntegerConstant_atLevel]
  | .identifier s t => rfl
  | .inlineIf c y n t => rfl
  | .nary k es t => rfl
  | .sync k x => rfl

theorem enumerationBounds_atLevel (q : Instance) (s : Symbol) :
    enumerationBounds (env.atLevel level) q s = enumerationBounds env q s := by
  unfold enumerationBounds
  rw [evalIntegerConstant_atLevel]
  rfl

theorem stateAttributes_atLevel (ctx : ContextPrefix) (q : Instance) (s : State) :
    stateAttributes (env.atLevel level) ctx q s = stateAttributes env ctx q s := by
  unfold stateAttributes
  rw [translateExpression_atLevel]
  rfl

theorem edgeAttributes_atLevel (e : Edge) (ctx : ContextPrefix) (q : Instance) :
    edgeAttributes (env.atLevel level) e ctx q = edgeAttributes env e ctx q := by
  unfold edgeAttributes
  rw [translateExpression_atLevel, translateAssignment_atLevel]

theorem baseLabel_atLevel (q : Instance) (channel : Symbol) (event : Expr) (ctx : ContextPrefix) :
    baseLabel (env.atLevel level) q channel event ctx = baseLabel env q channel event ctx := by
  unfold baseLabel
  rw [translateExpression_atLevel]
  rfl

theorem sRegisterIodecl_atLevel (decls : Declarations) (allowed : Std.TreeMap String EventSet) :
    sRegisterIodecl (env.atLevel level) decls allowed = sRegisterIodecl env decls allowed := by
  have labels : sectionLabels (env.atLevel level) = sectionLabels env := by
    funext es
    induction es with
    | nil => rfl
    | cons e rest ih =>
        unfold sectionLabels
        rw [translateExpression_atLevel, ih]
  have section' : registerSection (env.atLevel level) = registerSection env := by
    funext allowed d
    unfold registerSection
    rw [labels]
  unfold sRegisterIodecl
  rw [section']

end

/-! ## Programs that write the same -/

/-- The programs end alike and write the same, messages apart. -/
abbrev WritesAlike {α : Type} (m m' : Tr α) : Prop := Alike SameWritten m m'

theorem written_append (trace : List Output) (o : Output) :
    written (trace ++ [o]) = written trace ++ written [o] := List.filter_append _ _

theorem sides_sameWritten : SideBySide SameWritten where
  write same o := by
    refine ⟨?_, same.tauGenerated, same.events, same.localEvents, same.addStuckProcess⟩
    rw [TrState.write_trace, TrState.write_trace, written_append, written_append, same.trace]
  left same level args := by
    refine ⟨?_, same.tauGenerated, same.events, same.localEvents, same.addStuckProcess⟩
    rw [TrState.write_trace, written_append, same.trace]
    exact List.append_nil _
  right same level args := by
    refine ⟨?_, same.tauGenerated, same.events, same.localEvents, same.addStuckProcess⟩
    rw [TrState.write_trace, written_append, same.trace]
    exact (List.append_nil _).symm

theorem writesAlike_line (l : Line) : WritesAlike (writeLine l) (writeLine l) :=
  alike_line sides_sameWritten l

theorem writesAlike_comment (args : List Arg) : WritesAlike (commentln args) (commentln args) :=
  alike_comment sides_sameWritten args

theorem writesAlike_msg (verboseLevel verboseLevel' level : Nat) (args : List Arg) :
    WritesAlike (msg verboseLevel level args) (msg verboseLevel' level args) :=
  alike_msg sides_sameWritten verboseLevel verboseLevel' level args

theorem writesAlike_mute (verboseLevel level : Nat) (args : List Arg) :
    WritesAlike (msg verboseLevel level args) (pure ()) :=
  alike_mute sides_sameWritten verboseLevel level args

/-- Equal changes of the tables. -/
theorem writesAlike_events (change : GlobalEvents → GlobalEvents) :
    WritesAlike (modify fun st => { st with events := change st.events } : Tr Unit)
      (modify fun st => { st with events := change st.events }) :=
  Alike.update fun _ _ same => ⟨same.trace, same.tauGenerated, congrArg change same.events,
    same.localEvents, same.addStuckProcess⟩

section

variable {env : Env} {level : Nat} {p : Option Instance}

/-! ### Declarations -/

theorem declareCell_atLevel (name : String) (t : Ty) (init : Option Expr) :
    WritesAlike (declareCell (env.atLevel level) p name t init) (declareCell env p name t init) := by
  unfold declareCell
  split
  · exact writesAlike_comment _
  · exact writesAlike_comment _
  · exact writesAlike_comment _
  · exact writesAlike_line _
  · refine alike_integerVariable sides_sameWritten evalIntegerConstant_atLevel name init rfl ?_
    rw [variableBounds_atLevel]

theorem arrayElements_atLevel (name : String) (t : Ty) (init : Option Expr) (S : List Int) :
    WritesAlike (sEnumerateArrayElementsDecl (env.atLevel level) p name t init S)
      (sEnumerateArrayElementsDecl env p name t init S) := by
  fun_induction sEnumerateArrayElementsDecl env p name t init S with
  | case1 sub size init S cells =>
      rw [sEnumerateArrayElementsDecl.eq_1, computeRangeBounds_atLevel]
      refine Alike.liftBind fun bounds _ => Alike.liftBind fun count _ => ?_
      have rows : WritesAlike
          (forRange bounds.1 bounds.2 fun i => do
            let cell ← fromExcept (initialCell init (i - bounds.1))
            sEnumerateArrayElementsDecl (env.atLevel level) p name sub cell (i :: S))
          (forRange bounds.1 bounds.2 fun i => do
            let cell ← fromExcept (initialCell init (i - bounds.1))
            sEnumerateArrayElementsDecl env p name sub cell (i :: S)) :=
        alike_forRange fun i _ => Alike.liftBind fun cell _ => cells i cell
      cases init with
      | none => exact rows
      | some e => exact Alike.branch (fun _ => Alike.liftBind fun _ _ => rows) fun _ => rows
  | case2 type init S notArray =>
      rw [sEnumerateArrayElementsDecl.eq_2 _ _ _ _ _ _ notArray]
      exact declareCell_atLevel _ _ _

theorem declareVariable_atLevel (ctx : ContextPrefix) (s : Symbol) :
    WritesAlike (declareVariable (env.atLevel level) p ctx s) (declareVariable env p ctx s) := by
  have integer (vname : String) (t : Ty) (init : Option Expr) :
      WritesAlike (sOutputIntegerVariable (env.atLevel level) p vname t init)
        (sOutputIntegerVariable env p vname t init) := by
    refine alike_integerVariable sides_sameWritten evalIntegerConstant_atLevel vname init rfl ?_
    rw [variableBounds_atLevel]
  have array (vname : String) (t : Ty) (init : Option Expr) :
      WritesAlike (declareArray (env.atLevel level) p vname t init)
        (declareArray env p vname t init) := by
    unfold declareArray
    rw [oneDimDeclaration_atLevel]
    refine Alike.liftBind fun answer _ => ?_
    cases answer with
    | none => exact arrayElements_atLevel vname t init []
    | some whole =>
        refine Alike.liftBind fun size _ => Alike.branch (fun _ => ?_) fun _ =>
          alike_oneDimArray sides_sameWritten evalIntegerConstant_atLevel _ _ _ _
        exact Alike.bind (writesAlike_comment _) fun _ => writesAlike_line _
  refine Alike.bind (writesAlike_comment _) fun _ => ?_
  have type : (env.atLevel level).getType s = env.getType s := rfl
  dsimp only
  rw [type]
  generalize stripLabels (env.getType s) = t
  generalize t.kind = kind
  cases kind with
  | array => exact array _ _ _
  | range => exact integer _ _ _
  | prim k =>
      cases k with
      | bool => exact integer _ _ _
      | channel => exact writesAlike_comment _
      | clock => exact writesAlike_line _
      | _ => exact Alike.lift _
  | pre k =>
      cases k with
      | constant => exact integer _ _ _
      | broadcast => exact writesAlike_comment _
      | urgent => exact writesAlike_comment _
      | _ => exact Alike.lift _
  | _ => exact Alike.lift _

theorem declarations_atLevel (ctx : ContextPrefix) (decl : Declarations) :
    WritesAlike (translateDeclarations (env.atLevel level) p ctx decl)
      (translateDeclarations env p ctx decl) :=
  Alike.forM fun s _ => declareVariable_atLevel ctx s

/-! ### Edges -/

theorem localEvent_alike (s : String) : WritesAlike (declareLocalEvent s) (declareLocalEvent s) := by
  refine Alike.read fun st st' same => ?_
  rw [same.localEvents]
  refine Alike.branch (fun _ => Alike.bind (writesAlike_line _) fun _ => ?_) fun _ => Alike.ret _
  exact Alike.update fun _ _ same => ⟨same.trace, same.tauGenerated, same.events,
    congrArg (fun events : EventSet => events.insert s) same.localEvents, same.addStuckProcess⟩

theorem declareEvent_atLevel (channel : Symbol) (event : Expr) (ev s : String) :
    WritesAlike (declareEvent (env.atLevel level) channel event ev s)
      (declareEvent env channel event ev s) := by
  have finish : WritesAlike (do
      writeLine (.event ev)
      modify fun st => { st with
        events := { st.events with
          labels := st.events.labels.insert ev
          brodcasts := if sIsBroadcast env channel then st.events.brodcasts.insert s
            else st.events.brodcasts } } : Tr Unit) (do
      writeLine (.event ev)
      modify fun st => { st with
        events := { st.events with
          labels := st.events.labels.insert ev
          brodcasts := if sIsBroadcast env channel then st.events.brodcasts.insert s
            else st.events.brodcasts } } : Tr Unit) := by
    refine Alike.bind (writesAlike_line _) fun _ => ?_
    exact writesAlike_events fun events => { events with
      labels := events.labels.insert ev
      brodcasts := if sIsBroadcast env channel then events.brodcasts.insert s else events.brodcasts }
  refine Alike.read fun st st' same => ?_
  rw [same.events]
  refine Alike.branch (fun _ => Alike.branch (fun _ => ?_) fun _ => finish) fun _ => Alike.ret _
  exact Alike.bind (writesAlike_msg _ _ _ _) fun _ => finish

theorem edgeEvent_atLevel (e : Edge) (ctx : ContextPrefix) (q : Instance) :
    WritesAlike (edgeEvent (env.atLevel level) e ctx q) (edgeEvent env e ctx q) := by
  unfold edgeEvent
  split
  · exact Alike.ret _
  · rename_i kind channel sync
    unfold sBuildEdgeLabel
    dsimp only [Expr.getSymbol?]
    cases channel.getSymbol? with
    | none => exact Alike.lift _
    | some symbol =>
        dsimp only
        rw [baseLabel_atLevel]
        refine Alike.bind (writesAlike_msg _ _ _ _) fun _ => Alike.liftBind fun s _ => ?_
        have finish : WritesAlike (do
            declareEvent (env.atLevel level) symbol (.sync kind channel) (eventOf kind s) s
            modify fun st => { st with events := recordEvent st.events kind s (stringOf ctx) }
            pure (eventOf kind s) : Tr String) (do
            declareEvent env symbol (.sync kind channel) (eventOf kind s) s
            modify fun st => { st with events := recordEvent st.events kind s (stringOf ctx) }
            pure (eventOf kind s) : Tr String) :=
          Alike.bind (declareEvent_atLevel _ _ _ _) fun _ =>
            Alike.bind (writesAlike_events fun events => recordEvent events kind s (stringOf ctx))
              fun _ => Alike.ret _
        exact Alike.branch (fun _ => Alike.bind (localEvent_alike s) fun _ => finish) fun _ => finish
  · exact Alike.lift _

theorem edge_alike (process src tgt event : String) (attr : Attributes) :
    WritesAlike (edge process src tgt event attr) (edge process src tgt event attr) := by
  refine Alike.read fun st st' same => ?_
  rw [same.tauGenerated]
  refine Alike.branch (fun _ => ?_) fun _ => writesAlike_line _
  refine Alike.bind (writesAlike_comment _) fun _ => Alike.bind (writesAlike_line _) fun _ => ?_
  refine Alike.bind (Alike.update fun _ _ same => ?_) fun _ => writesAlike_line _
  exact ⟨same.trace, rfl, same.events, same.localEvents, same.addStuckProcess⟩

theorem translateEdge_atLevel (e : Edge) (ctx : ContextPrefix) (q : Instance) :
    WritesAlike (sTranslateEdge (env.atLevel level) e ctx q) (sTranslateEdge env e ctx q) := by
  have finish : WritesAlike (do
      let ev ← edgeEvent (env.atLevel level) e ctx q
      let src ← fromExcept (endName env e.src)
      let tgt ← fromExcept (endName env e.dst)
      assertTr (e.actname == "SKIP" || e.actname == "") "e.actname == \"SKIP\" || e.actname == \"\""
      let attr ← fromExcept (edgeAttributes (env.atLevel level) e ctx q)
      edge (stringOf ctx) src tgt ev attr : Tr Unit) (do
      let ev ← edgeEvent env e ctx q
      let src ← fromExcept (endName env e.src)
      let tgt ← fromExcept (endName env e.dst)
      assertTr (e.actname == "SKIP" || e.actname == "") "e.actname == \"SKIP\" || e.actname == \"\""
      let attr ← fromExcept (edgeAttributes env e ctx q)
      edge (stringOf ctx) src tgt ev attr : Tr Unit) := by
    rw [edgeAttributes_atLevel]
    refine Alike.bind (edgeEvent_atLevel e ctx q) fun ev => Alike.liftBind fun src _ => ?_
    refine Alike.liftBind fun tgt _ => Alike.liftBind fun _ _ => Alike.liftBind fun attr _ => ?_
    exact edge_alike _ _ _ _ _
  exact Alike.branch (fun _ => Alike.bind (writesAlike_comment _) fun _ => finish) fun _ => finish

theorem edgeWithSelect_atLevel (e : Edge) (ctx : ContextPrefix) (select : List Symbol) (q : Instance) :
    WritesAlike (sTranslateEdgeWithSelect (env.atLevel level) e ctx select q)
      (sTranslateEdgeWithSelect env e ctx select q) := by
  induction select generalizing q with
  | nil => exact translateEdge_atLevel e ctx q
  | cons sel rest ih =>
      unfold sTranslateEdgeWithSelect
      rw [enumerationBounds_atLevel]
      exact Alike.liftBind fun bounds _ => alike_forRange fun i _ => ih (bindConstant q sel i)

/-! ### Processes -/

theorem instance_atLevel (ctx : ContextPrefix) (q : Instance) (mapping : Mapping) :
    WritesAlike (sTranslateInstance (env.atLevel level) ctx q mapping)
      (sTranslateInstance env ctx q mapping) := by
  have finish : WritesAlike (do
      writeLine (.process (stringOf ctx))
      translateDeclarations (env.atLevel level) (mergeMapping q mapping) ctx
        (mergeMapping q mapping).templ.toDeclarations
      sTranslateStates (env.atLevel level) ctx (mergeMapping q mapping)
      sTranslateEdges (env.atLevel level) ctx (mergeMapping q mapping)
      write .blank : Tr Unit) (do
      writeLine (.process (stringOf ctx))
      translateDeclarations env (mergeMapping q mapping) ctx
        (mergeMapping q mapping).templ.toDeclarations
      sTranslateStates env ctx (mergeMapping q mapping)
      sTranslateEdges env ctx (mergeMapping q mapping)
      write .blank : Tr Unit) := by
    refine Alike.bind (writesAlike_line _) fun _ => Alike.bind (declarations_atLevel ctx _) fun _ => ?_
    refine Alike.bind (Alike.forM fun st _ => ?_) fun _ => ?_
    · unfold sTranslateState
      rw [stateAttributes_atLevel]
      exact Alike.liftBind fun attr _ => writesAlike_line _
    · refine Alike.bind (Alike.forM fun e _ => edgeWithSelect_atLevel e ctx e.select _) fun _ => ?_
      exact alike_write sides_sameWritten _
  refine Alike.bind (Alike.update fun _ _ same => ?_) fun _ => Alike.liftBind fun _ _ => ?_
  · exact ⟨same.trace, same.tauGenerated, same.events, rfl, same.addStuckProcess⟩
  · exact Alike.branch (fun _ => Alike.bind (writesAlike_comment _) fun _ => finish) fun _ => finish

theorem processRec_atLevel (q : Instance) (nbUnbound : Nat) (ctx : ContextPrefix) (mapping : Mapping) :
    WritesAlike (sTranslateProcessRec (env.atLevel level) q nbUnbound ctx mapping)
      (sTranslateProcessRec env q nbUnbound ctx mapping) := by
  induction nbUnbound generalizing ctx mapping with
  | zero => exact instance_atLevel ctx q mapping
  | succ nbUnbound ih =>
      unfold sTranslateProcessRec
      refine Alike.liftBind fun s _ => ?_
      rw [enumerationBounds_atLevel]
      exact Alike.liftBind fun bounds _ => alike_forRange fun i _ => ih _ _

theorem process_atLevel (q : Instance) :
    WritesAlike (sTranslateProcess (env.atLevel level) q) (sTranslateProcess env q) := by
  refine Alike.bind (writesAlike_comment _) fun _ => Alike.branch (fun _ => ?_) fun _ =>
    instance_atLevel _ q _
  exact Alike.bind (writesAlike_msg _ _ _ _) fun _ => processRec_atLevel q _ _ _

/-! ### Synchronisation vectors -/

/-- The table of events is a list of messages. -/
theorem displayTable_mute (env : Env) : WritesAlike (sDisplayTableOfEvents env) (pure ()) := by
  have listed (set : EventSet) : WritesAlike (set.toList.forM fun e =>
      msg env.verboseLevel vlInfo [.text "\t", .text e, .text "\n"]) (pure ()) :=
    Alike.forM_returns fun e => writesAlike_mute _ _ _
  have entries (action : String) (table : List (String × ProcSet)) :
      WritesAlike (table.forM (sDisplayProcSet env action)) (pure ()) := by
    refine Alike.forM_returns fun entry => Alike.bindReturns (writesAlike_mute _ _ _) ?_
    split
    · exact fun st st' same => ⟨rfl, sides_sameWritten.left same _ _⟩
    · exact Alike.ret _
  unfold sDisplayTableOfEvents
  split
  · refine Alike.readLeft fun st => Alike.bindReturns (writesAlike_mute _ _ _) ?_
    refine Alike.bindReturns (entries _ _) (Alike.bindReturns (entries _ _)
      (Alike.bindReturns (entries _ _) ?_))
    have broadcasts : WritesAlike (do
        if !st.events.brodcasts.isEmpty then
          msg env.verboseLevel vlInfo [.text "broadcast events:\n"]
          st.events.brodcasts.toList.forM fun e =>
            msg env.verboseLevel vlInfo [.text "\t", .text e, .text "\n"] : Tr Unit) (pure ()) := by
      split
      · exact Alike.bindReturns (writesAlike_mute _ _ _) (listed _)
      · exact Alike.ret _
    dsimp only
    split
    · exact Alike.bindReturns (writesAlike_mute _ _ _) (Alike.bindReturns (listed _) broadcasts)
    · exact broadcasts
  · exact Alike.ret _

theorem sync_alike (sv : SyncMap) : WritesAlike (sync sv) (sync sv) :=
  Alike.liftBind fun _ _ => writesAlike_line _

theorem blockedEvent_alike (s q : String) (trevent : String → String) :
    WritesAlike (sGenerateBlockedEvent s q trevent) (sGenerateBlockedEvent s q trevent) := by
  refine Alike.read fun st st' same => ?_
  rw [same.addStuckProcess]
  refine Alike.branch (fun _ => Alike.bind ?_ fun _ => ?_) fun _ => sync_alike _
  · exact Alike.bind (writesAlike_comment _) fun _ => Alike.bind (writesAlike_line _) fun _ =>
      Alike.bind (writesAlike_line _) fun _ => writesAlike_line _
  · refine Alike.bind (Alike.update fun _ _ same => ?_) fun _ => sync_alike _
    exact ⟨same.trace, same.tauGenerated, same.events, same.localEvents, rfl⟩

theorem syncEmitters_alike (s : String) (emitters : ProcSet) :
    WritesAlike (sSyncEmitters s emitters) (sSyncEmitters s emitters) := by
  have clear (flag : Bool) : WritesAlike (if flag then
      modify fun st => { st with
        events := { st.events with receivers := st.events.receivers.erase s } }
      else pure () : Tr Unit) (if flag then
      modify fun st => { st with
        events := { st.events with receivers := st.events.receivers.erase s } }
      else pure () : Tr Unit) :=
    Alike.branch (fun _ => writesAlike_events fun events => { events with
      receivers := events.receivers.erase s }) fun _ => Alike.ret _
  refine Alike.read fun st st' same => ?_
  rw [same.events]
  split
  · exact Alike.branch (fun _ => Alike.ret _) fun _ =>
      Alike.forM fun pe _ => blockedEvent_alike _ _ _
  · rename_i receivers _
    refine Alike.liftBind fun _ _ => ?_
    split
    · refine Alike.bind (Alike.foldlM (fun pe _ flag => ?_) _) clear
      refine Alike.bind ?_ fun _ => Alike.ret _
      unfold sGenerateEmitBroadcast
      exact Alike.branch (fun _ => Alike.bind (sync_alike _) fun _ => Alike.ret _) fun _ => Alike.ret _
    · refine Alike.bind (Alike.foldlM (fun pe _ flag => ?_) _) clear
      refine Alike.bind (Alike.foldlM (fun pr _ norecv => ?_) _) fun norecv => ?_
      · refine Alike.bind ?_ fun _ => Alike.ret _
        exact Alike.branch (fun _ => Alike.ret _) fun _ =>
          Alike.bind (sync_alike _) fun _ => Alike.ret _
      · exact Alike.branch (fun _ => Alike.bind (blockedEvent_alike _ _ _) fun _ => Alike.ret _)
          fun _ => Alike.ret _

theorem strongSync_alike (s : String) (processes : ProcSet)
    (allowedCsp : Std.TreeMap String EventSet) :
    WritesAlike (sGenerateStrongSync s processes allowedCsp)
      (sGenerateStrongSync s processes allowedCsp) := by
  refine Alike.bind (Alike.foldlM (fun q _ vect => ?_) _) fun vect =>
    Alike.branch (fun _ => sync_alike _) fun _ => Alike.ret _
  unfold sStrongSyncStep
  split
  · exact Alike.bind (blockedEvent_alike _ _ _) fun _ => Alike.ret _
  · exact Alike.ret _

theorem syncVectors_alike : WritesAlike sGenerateSyncVectors sGenerateSyncVectors := by
  refine Alike.bind (Alike.update fun _ _ same => ?_) fun _ => Alike.bind ?_ fun _ => ?_
  · exact ⟨same.trace, same.tauGenerated, same.events, same.localEvents, rfl⟩
  · refine Alike.read fun st st' same => ?_
    rw [same.events]
    refine Alike.bind (Alike.forM fun kv _ => syncEmitters_alike _ _) fun _ => ?_
    refine Alike.read fun st st' same => ?_
    rw [same.events]
    exact Alike.forM fun kv _ => Alike.forM fun pr _ => blockedEvent_alike _ _ _
  · refine Alike.read fun st st' same => ?_
    rw [same.events]
    exact Alike.forM fun kv _ => strongSync_alike _ _ _

/-! ### The whole translation -/

/-- At another level a model is translated alike. -/
theorem translateSystem_atLevel (sysname : String) (tas : TimedAutomataSystem) :
    WritesAlike (translateSystem (env.atLevel level) sysname tas) (translateSystem env sysname tas) := by
  have table : WritesAlike (sDisplayTableOfEvents (env.atLevel level)) (sDisplayTableOfEvents env) :=
    Alike.both sameWritten_equivalence (displayTable_mute _) (displayTable_mute _)
  refine Alike.bind ?_ fun _ => Alike.bind table fun _ => syncVectors_alike
  · refine Alike.bind (writesAlike_line _) fun _ => Alike.bind (declarations_atLevel _ _) fun _ => ?_
    refine Alike.bind ?_ fun _ => Alike.forM fun q _ => process_atLevel q
    refine Alike.branch (fun _ => writesAlike_comment _) fun _ => Alike.read fun st st' same => ?_
    rw [sRegisterIodecl_atLevel, same.events]
    exact Alike.liftBind fun allowed _ => writesAlike_events fun events => { events with
      allowedCsp := allowed }

end

end Utot
