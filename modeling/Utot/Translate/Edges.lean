import Utot.Translate.Declarations

/-!
# Locations and edges

The first half of `utot-translate.cc`: the lines of the locations and edges of
one process, and the tables of events its edges fill.
-/

namespace Utot

open Utap Library Tchecker

/-! ## Locations -/

/-- The attributes of a location. -/
def stateAttributes (env : Env) (ctx : ContextPrefix) (p : Instance) (s : State) :
    Res Attributes := do
  let type := env.getType s.uid
  let attr : Attributes ← match s.invariant with
    | none => .ok ∅
    | some invariant => do
        let text ← translateExpression env p invariant ctx
        .ok ((∅ : Attributes).insert "invariant" text)
  let attr := if type.is (.pre .committed) then attr.insert "committed" "" else attr
  let attr := if type.is (.pre .urgent) then attr.insert "urgent" "" else attr
  .ok (if s.uid = p.templ.init then attr.insert "initial" "" else attr)

/-- One round of the loop of `s_translate_states`. -/
def sTranslateState (env : Env) (ctx : ContextPrefix) (p : Instance) (s : State) : Tr Unit := do
  let attr ← fromExcept (stateAttributes env ctx p s)
  writeLine (.location (stringOf ctx) (env.getName s.uid) attr.toList)

/-- `s_translate_states`. -/
def sTranslateStates (env : Env) (ctx : ContextPrefix) (p : Instance) : Tr Unit :=
  p.templ.states.forM (sTranslateState env ctx p)

/-! ## Labels -/

/-- `s_is_broadcast` on a type. -/
def isBroadcastType : Ty → Bool
  | .array sub _ => isBroadcastType sub
  | .pre k t => if t.isArray then isBroadcastType t else (Ty.pre k t).is (.pre .broadcast)
  | .ref t => if t.isArray then isBroadcastType t else t.is (.pre .broadcast)
  | .label _ t => if t.isArray then isBroadcastType t else t.is (.pre .broadcast)
  | .range t _ _ => if t.isArray then isBroadcastType t else t.is (.pre .broadcast)
  | .prim _ => false
  | .record _ _ => false

/-- `s_is_broadcast` on the symbol of a synchronisation. -/
def sIsBroadcast (env : Env) (channel : Symbol) : Bool := isBroadcastType (env.getType channel)

/-- The event of a label on an edge. -/
def eventOf (sync : SyncKind) (label : String) : String :=
  match sync with
  | .bang => emitEvent label
  | .que => recvEvent label
  | .csp => cspEvent label

/-- The table `eventmap` points to, with one more process. -/
def recordEvent (events : GlobalEvents) (sync : SyncKind) (label process : String) :
    GlobalEvents :=
  match sync with
  | .bang => { events with emitters := events.emitters.record label process }
  | .que => { events with receivers := events.receivers.record label process }
  | .csp => { events with csp := events.csp.record label process }

/-- The base label of a synchronisation: `local` channels carry the prefix of
their process. -/
def baseLabel (env : Env) (p : Instance) (channel : Symbol) (event : Expr) (ctx : ContextPrefix) :
    Res String :=
  translateExpression env p event (if env.hasParent channel then ctx else [])

/-- The line of a channel declared in the template, on its first use in the process. -/
def declareLocalEvent (label : String) : Tr Unit := do
  let st ← get
  if label ∉ st.localEvents then
    writeLine (.event label)
    modify fun st => { st with localEvents := st.localEvents.insert label }

/-- The line of an event, on its first use; `type` is the type of the symbol on
the edge. -/
def declareEvent (env : Env) (channel : Symbol) (event : Expr) (ev s : String) : Tr Unit := do
  let st ← get
  if ev ∉ st.events.labels then
    if (env.getType channel).is (.pre .urgent) then
      warn env.verboseLevel [.text "urgent channels are not supported: '", .expr event, .text "'.\n"]
    writeLine (.event ev)
    modify fun st => { st with
      events := { st.events with
        labels := st.events.labels.insert ev
        brodcasts :=
          if sIsBroadcast env channel then st.events.brodcasts.insert s else st.events.brodcasts } }

/-- `s_build_edge_label`. -/
def sBuildEdgeLabel (env : Env) (kind : SyncKind) (channelExpr : Expr) (ctx : ContextPrefix)
    (p : Instance) : Tr String := do
  let event := Expr.sync kind channelExpr
  match event.getSymbol? with
  | none => fromExcept (.error (.undefined "null dereference"))
  | some channel => do
      msg env.verboseLevel vlInfo [.text "build edge label for event ", .expr event, .text "\n"]
      let s ← fromExcept (baseLabel env p channel event ctx)
      if env.hasParent channel then declareLocalEvent s
      let ev := eventOf kind s
      declareEvent env channel event ev s
      modify fun st => { st with events := recordEvent st.events kind s (stringOf ctx) }
      pure ev

/-! ## Edges -/

/-- The comment of an edge with selection. -/
def selectionComment (env : Env) (p : Instance) (select : List Symbol) : List Arg :=
  .text "edge with selection:" :: select.flatMap fun s =>
    [.text " ", .text (env.getName s), .text " = "] ++
      match p.mapping[s]? with
      | some value => [.expr value]
      | none => []

/-- The event of an edge: the label of its synchronisation, or `tau`. -/
def edgeEvent (env : Env) (e : Edge) (ctx : ContextPrefix) (p : Instance) : Tr String :=
  match e.sync with
  | none => pure tauEvent
  | some (.sync kind channel) => sBuildEdgeLabel env kind channel ctx p
  | some _ => fromExcept (.error (.assertion "kind == SYNC"))

/-- The name of an end of an edge; a branchpoint has no location. -/
def endName (env : Env) : Option Symbol → Res String
  | none => .error (.undefined "null dereference")
  | some s => .ok (env.getName s)

/-- The attributes of an edge. -/
def edgeAttributes (env : Env) (e : Edge) (ctx : ContextPrefix) (p : Instance) :
    Res Attributes := do
  let guard ← translateExpression env p e.guard ctx
  let attr : Attributes := if guard ≠ "1" then (∅ : Attributes).insert "provided" guard else ∅
  let action ← translateAssignment env p e.assign ctx
  .ok (if action ≠ doNop then attr.insert "do" action else attr)

/-- `s_translate_edge`. -/
def sTranslateEdge (env : Env) (e : Edge) (ctx : ContextPrefix) (p : Instance) : Tr Unit := do
  if 0 < e.select.length then commentln (selectionComment env p e.select)
  let ev ← edgeEvent env e ctx p
  let src ← fromExcept (endName env e.src)
  let tgt ← fromExcept (endName env e.dst)
  assertTr (e.actname == "SKIP" || e.actname == "") "e.actname == \"SKIP\" || e.actname == \"\""
  let attr ← fromExcept (edgeAttributes env e ctx p)
  edge (stringOf ctx) src tgt ev attr

/-- The bounds of a select variable or an unbound parameter. -/
def enumerationBounds (env : Env) (p : Instance) (s : Symbol) : Res (Int × Int) := do
  let type := env.getType s
  if !type.isRange then
    trErr [.text "type of symbol '", .text (env.getName s), .text "' can not be enumerated."]
  else do
    let (lower, upper) ← orAssert "getKind () == RANGE" type.getRange?
    let min ← evalIntegerConstant env p lower
    let max ← evalIntegerConstant env p upper
    .ok (min, max)

/-- The instance with one more binding. -/
def bindConstant (p : Instance) (s : Symbol) (i : Int) : Instance :=
  { p with mapping := p.mapping.insert s (Expr.createConstant i) }

/-- `s_translate_edge_with_select`, by the select variables that are left. -/
def sTranslateEdgeWithSelect (env : Env) (e : Edge) (ctx : ContextPrefix) :
    List Symbol → Instance → Tr Unit
  | [], p => sTranslateEdge env e ctx p
  | sel :: rest, p => do
      let (min, max) ← fromExcept (enumerationBounds env p sel)
      forRange min max fun i => sTranslateEdgeWithSelect env e ctx rest (bindConstant p sel i)

/-- `s_translate_edges`. -/
def sTranslateEdges (env : Env) (ctx : ContextPrefix) (p : Instance) : Tr Unit :=
  p.templ.edges.forM fun e => sTranslateEdgeWithSelect env e ctx e.select p

end Utot
