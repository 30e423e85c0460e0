import Utot.Run.Visits
import Utot.Translate.Model

/-!
# Uses of channels

What one visit of an edge does to the tables, and which declared channel a
synchronisation denotes once the parameters of the instance are followed.
-/

namespace Utot

open Utap Library Tchecker

/-! ## The channel behind a synchronisation -/

/-- The declared channel a channel expression leads to: parameters are replaced
by their arguments, subscripts are passed. -/
inductive Resolves (env : Env) (q : Instance) : Expr → Symbol → Prop where
  | declared {s : Symbol} {t : Ty} (unmapped : q.mapping[s]? = none) :
      Resolves env q (.identifier s t) s
  | parameter {s c : Symbol} {t : Ty} {argument : Expr} (mapped : q.mapping[s]? = some argument)
      (later : Resolves env q argument c) : Resolves env q (.identifier s t) c
  | cell {a i : Expr} {t : Ty} {c : Symbol} (array : Resolves env q a c) :
      Resolves env q (.binary .array a i t) c
  | sync {kind : SyncKind} {e : Expr} {c : Symbol} (channel : Resolves env q e c) :
      Resolves env q (.sync kind e) c

theorem Resolves.unique {env : Env} {q : Instance} {e : Expr} {c c' : Symbol}
    (first : Resolves env q e c) (second : Resolves env q e c') : c = c' := by
  induction first with
  | declared unmapped =>
      cases second with
      | declared _ => rfl
      | parameter mapped _ =>
          rw [unmapped] at mapped
          cases mapped
  | parameter mapped _ ih =>
      cases second with
      | declared unmapped =>
          rw [mapped] at unmapped
          cases unmapped
      | parameter mapped' later =>
          rw [mapped] at mapped'
          cases mapped'
          exact ih later
  | cell _ ih =>
      cases second with
      | cell array => exact ih array
  | sync _ ih =>
      cases second with
      | sync channel => exact ih channel

/-- What `translate_event_expression` can print has a channel behind it. -/
theorem resolves_of_translateEventAux {env : Env} {q : Instance} {ctx : ContextPrefix} {depth : Nat}
    {e : Expr} {text : String} (printed : translateEventAux env depth (some q) e ctx = .ok text) :
    ∃ c, Resolves env q e c := by
  induction depth generalizing e text with
  | zero => cases printed
  | succ depth ih =>
      cases e with
      | identifier s t =>
          cases mapped : q.mapping[s]? with
          | none => exact ⟨s, .declared mapped⟩
          | some argument =>
              have later : translateEventAux env depth (some q) argument ctx = .ok text := by
                simpa [translateEventAux, mapped?, mapped] using printed
              obtain ⟨c, resolves⟩ := ih later
              exact ⟨c, .parameter mapped resolves⟩
      | sync kind channel =>
          obtain ⟨c, resolves⟩ := ih (show translateEventAux env depth (some q) channel ctx = .ok text
            from printed)
          exact ⟨c, .sync resolves⟩
      | binary kind a i t =>
          cases kind with
          | array =>
              obtain ⟨index, _, printed⟩ := Res.bind_eq_ok.mp printed
              obtain ⟨size, _, printed⟩ := Res.bind_eq_ok.mp printed
              obtain ⟨⟨minsz, maxsz⟩, _, printed⟩ := Res.bind_eq_ok.mp printed
              dsimp only at printed
              split at printed
              · obtain ⟨arrayText, array, _⟩ := Res.bind_eq_ok.mp printed
                obtain ⟨c, resolves⟩ := ih array
                exact ⟨c, .cell resolves⟩
              · cases printed
          | _ => cases printed
      | _ => cases printed

/-- A synchronisation that has a base label has a channel behind it. -/
theorem resolves_of_baseLabel {env : Env} {q : Instance} {written : Symbol} {kind : SyncKind}
    {channel : Expr} {ctx : ContextPrefix} {s : String}
    (labelled : baseLabel env q written (.sync kind channel) ctx = .ok s) :
    ∃ c, Resolves env q channel c := by
  unfold baseLabel translateExpression at labelled
  cases stack : env.stack with
  | zero =>
      rw [stack] at labelled
      cases labelled
  | succ depth =>
      rw [stack] at labelled
      obtain ⟨c, resolves⟩ := resolves_of_translateEventAux
        (show translateEventAux env depth (some q) (.sync kind channel) _ = .ok s from labelled)
      cases resolves with
      | sync resolves => exact ⟨c, resolves⟩

/-- A synchronisation on a visited edge: its base label, the symbol written on
the edge and the declared channel it denotes. -/
structure Uses (env : Env) (processes : List Instance) (kind : SyncKind) (s : String)
    (written actual : Symbol) : Prop where
  visited : ∃ ctx q e channel, Visit env processes ctx q e ∧ e.sync = some (.sync kind channel) ∧
    channel.getSymbol? = some written ∧ Resolves env q channel actual ∧
    baseLabel env q written (.sync kind channel) ctx = .ok s

/-! ## One visit -/

/-- The tables after `declareEvent`. -/
def declaredIn (env : Env) (channel : Symbol) (ev s : String) (events : GlobalEvents) :
    GlobalEvents :=
  if ev ∈ events.labels then events
  else { events with
    labels := events.labels.insert ev
    brodcasts := if sIsBroadcast env channel then events.brodcasts.insert s else events.brodcasts }

/-- A message does not throw. -/
theorem msg_spec (verboseLevel level : Nat) (args : List Arg) {P E : TrState → Prop}
    (keeps : ∀ st o, P st → P (st.write o)) :
    Spec P (msg verboseLevel level args) (fun _ => P) E := by
  unfold msg
  split
  · exact Spec.update fun st pre => keeps st _ pre
  · exact Spec.ret _ fun _ pre => pre

theorem declareEvent_spec (env : Env) (channel : Symbol) (event : Expr) (ev s : String)
    (before : GlobalEvents) {E : TrState → Prop} :
    Spec (fun st => st.events = before) (declareEvent env channel event ev s)
      (fun _ st => st.events = declaredIn env channel ev s before) E := by
  have finish : Spec (fun st => st.events = before) (do
      writeLine (.event ev)
      modify fun st => { st with
        events := { st.events with
          labels := st.events.labels.insert ev
          brodcasts := if sIsBroadcast env channel then st.events.brodcasts.insert s
            else st.events.brodcasts } } : Tr Unit)
      (fun _ st => st.events = { before with
        labels := before.labels.insert ev
        brodcasts := if sIsBroadcast env channel then before.brodcasts.insert s
          else before.brodcasts }) E := by
    refine Spec.bind (Q := fun _ st => st.events = before) (Spec.update fun _ pre => pre) fun _ => ?_
    refine Spec.update fun st pre => ?_
    subst pre
    rfl
  refine Spec.read fun r pre => ?_
  subst pre
  unfold declaredIn
  by_cases known : ev ∈ r.events.labels
  · simp only [known, not_true_eq_false, if_false, if_true]
    exact Spec.ret _ (by rintro st rfl; rfl)
  · simp only [known, not_false_eq_true, if_true, if_false]
    have start : ∀ st, st = r → st.events = r.events := by
      rintro st rfl
      rfl
    split
    · exact Spec.bind ((msg_spec _ _ _ fun _ _ pre => pre).weaken start (fun _ _ post => post)
        fun _ failed => failed) fun _ => finish
    · exact finish.weaken start (fun _ _ post => post) fun _ failed => failed

/-- What `s_build_edge_label` returns and leaves of the tables. -/
theorem sBuildEdgeLabel_spec (env : Env) (kind : SyncKind) (channel : Expr) (ctx : ContextPrefix)
    (q : Instance) (before : GlobalEvents) :
    Spec (fun st => st.events = before) (sBuildEdgeLabel env kind channel ctx q)
      (fun ev st => ∃ written s, channel.getSymbol? = some written ∧
        baseLabel env q written (.sync kind channel) ctx = .ok s ∧ ev = eventOf kind s ∧
        st.events = recordEvent (declaredIn env written ev s before) kind s (stringOf ctx))
      fun _ => True := by
  unfold sBuildEdgeLabel
  dsimp only [Expr.getSymbol?]
  cases found : channel.getSymbol? with
  | none => exact Spec.lift (fun _ _ _ failed => by cases failed) fun _ _ _ _ => trivial
  | some written =>
      refine Spec.bind (msg_spec _ _ _ fun _ _ pre => pre) fun _ => ?_
      refine Spec.liftBind (fun s labelled => ?_) fun _ _ => trivial
      have finish : Spec (fun st => st.events = before) (do
          declareEvent env written (.sync kind channel) (eventOf kind s) s
          modify fun st => { st with events := recordEvent st.events kind s (stringOf ctx) }
          pure (eventOf kind s) : Tr String)
          (fun ev st => ∃ written' s', some written = some written' ∧
            baseLabel env q written' (.sync kind channel) ctx = .ok s' ∧ ev = eventOf kind s' ∧
            st.events = recordEvent (declaredIn env written' ev s' before) kind s' (stringOf ctx))
          (fun _ => True) := by
        refine Spec.bind (declareEvent_spec env written _ (eventOf kind s) s before) fun _ => ?_
        refine Spec.bind (Q := fun _ st => st.events =
          recordEvent (declaredIn env written (eventOf kind s) s before) kind s (stringOf ctx))
          (Spec.update fun st pre => by rw [← pre]) fun _ => ?_
        exact Spec.ret _ fun st post => ⟨written, s, rfl, labelled, rfl, post⟩
      split
      · refine Spec.bind (Q := fun _ st => st.events = before) ?_ fun _ => finish
        refine Spec.read fun r pre => ?_
        split
        · refine Spec.bind (Q := fun _ st => st.events = before)
            (Spec.update (by rintro st rfl; exact pre)) fun _ => ?_
          exact Spec.update fun st pre' => pre'
        · exact Spec.ret _ (by rintro st rfl; exact pre)
      · exact finish

/-- What the visit of an edge leaves of the tables. -/
theorem sTranslateEdge_spec (env : Env) (e : Edge) (ctx : ContextPrefix) (q : Instance)
    (before : GlobalEvents) :
    Spec (fun st => st.events = before) (sTranslateEdge env e ctx q)
      (fun _ st => (e.sync = none ∧ st.events = before) ∨
        ∃ kind channel written s, e.sync = some (.sync kind channel) ∧
          channel.getSymbol? = some written ∧
          baseLabel env q written (.sync kind channel) ctx = .ok s ∧
          st.events = recordEvent (declaredIn env written (eventOf kind s) s before) kind s
            (stringOf ctx))
      fun _ => True := by
  let after (_ : String) (st : TrState) : Prop := (e.sync = none ∧ st.events = before) ∨
    ∃ kind channel written s, e.sync = some (.sync kind channel) ∧
      channel.getSymbol? = some written ∧
      baseLabel env q written (.sync kind channel) ctx = .ok s ∧
      st.events = recordEvent (declaredIn env written (eventOf kind s) s before) kind s
        (stringOf ctx)
  have label : Spec (fun st => st.events = before) (edgeEvent env e ctx q) after fun _ => True := by
    unfold edgeEvent
    split
    · rename_i none
      exact Spec.ret _ fun st pre => .inl ⟨none, pre⟩
    · rename_i kind channel sync
      refine (sBuildEdgeLabel_spec env kind channel ctx q before).weaken (fun _ pre => pre) ?_
        fun _ failed => failed
      rintro ev st ⟨written, s, symbol, labelled, rfl, tables⟩
      exact .inr ⟨kind, channel, written, s, sync, symbol, labelled, tables⟩
    · exact Spec.lift (fun _ _ _ failed => by cases failed) fun _ _ _ _ => trivial
  have finish : Spec (fun st => st.events = before) (do
      let ev ← edgeEvent env e ctx q
      let src ← fromExcept (endName env e.src)
      let tgt ← fromExcept (endName env e.dst)
      assertTr (e.actname == "SKIP" || e.actname == "") "e.actname == \"SKIP\" || e.actname == \"\""
      let attr ← fromExcept (edgeAttributes env e ctx q)
      edge (stringOf ctx) src tgt ev attr : Tr Unit) (fun _ => after "") (fun _ => True) := by
    refine Spec.bind label fun ev => ?_
    refine Spec.liftBind (fun src _ => ?_) fun _ _ => trivial
    refine Spec.liftBind (fun tgt _ => ?_) fun _ _ => trivial
    refine Spec.liftBind (fun _ _ => ?_) fun _ _ => trivial
    refine Spec.liftBind (fun attr _ => ?_) fun _ _ => trivial
    exact spec_unchanged (J := fun events => (e.sync = none ∧ events = before) ∨
      ∃ kind channel written s, e.sync = some (.sync kind channel) ∧
        channel.getSymbol? = some written ∧
        baseLabel env q written (.sync kind channel) ctx = .ok s ∧
        events = recordEvent (declaredIn env written (eventOf kind s) s before) kind s
          (stringOf ctx)) (keepsEvents_edge _ _ _ _ _)
  unfold sTranslateEdge
  split
  · exact Spec.bind (Q := fun _ st => st.events = before) (Spec.update fun _ pre => pre) fun _ => finish
  · exact finish

/-- The labels only grow. -/
def labelsGrow : Frame GlobalEvents where
  rel before after := ∀ ev ∈ before.labels, ev ∈ after.labels
  refl _ _ inside := inside
  trans first second ev inside := second ev (first ev inside)

theorem recordEvent_labels (events : GlobalEvents) (kind : SyncKind) (s process : String) :
    (recordEvent events kind s process).labels = events.labels := by
  cases kind <;> rfl

theorem recordEvent_brodcasts (events : GlobalEvents) (kind : SyncKind) (s process : String) :
    (recordEvent events kind s process).brodcasts = events.brodcasts := by
  cases kind <;> rfl

theorem keepsEvents_localEvent (label : String) : Keeps eventsFrame (declareLocalEvent label) := by
  refine Keeps.bind Keeps.read fun r => ?_
  split
  · exact Keeps.bind (keepsEvents_writeLine _) fun _ => Keeps.update fun _ => rfl
  · exact Keeps.ret _

theorem declareEvent_grows (env : Env) (channel : Symbol) (event : Expr) (ev s : String) :
    Keeps (tablesFrame labelsGrow) (declareEvent env channel event ev s) := by
  have finish : Keeps (tablesFrame labelsGrow) (do
      writeLine (.event ev)
      modify fun st => { st with
        events := { st.events with
          labels := st.events.labels.insert ev
          brodcasts := if sIsBroadcast env channel then st.events.brodcasts.insert s
            else st.events.brodcasts } } : Tr Unit) :=
    Keeps.bind (keeps_tables (keepsEvents_writeLine _)) fun _ =>
      Keeps.update fun st label inside => Std.TreeSet.mem_insert.mpr (.inr inside)
  refine Keeps.bind Keeps.read fun r => ?_
  dsimp only
  split
  · split
    · exact Keeps.bind (keeps_tables (keepsEvents_msg _ _ _)) fun _ => finish
    · exact finish
  · exact Keeps.ret _

theorem sBuildEdgeLabel_grows (env : Env) (kind : SyncKind) (channel : Expr) (ctx : ContextPrefix)
    (q : Instance) : Keeps (tablesFrame labelsGrow) (sBuildEdgeLabel env kind channel ctx q) := by
  unfold sBuildEdgeLabel
  dsimp only
  split
  · exact Keeps.lift _
  · rename_i written _
    refine Keeps.bind (keeps_tables (keepsEvents_msg _ _ _)) fun _ =>
      Keeps.bind (Keeps.lift _) fun s => ?_
    have finish : Keeps (tablesFrame labelsGrow) (do
        declareEvent env written (.sync kind channel) (eventOf kind s) s
        modify fun st => { st with events := recordEvent st.events kind s (stringOf ctx) }
        pure (eventOf kind s) : Tr String) := by
      refine Keeps.bind (declareEvent_grows _ _ _ _ _) fun _ =>
        Keeps.bind (Keeps.update fun st label inside => ?_) fun _ => Keeps.ret _
      dsimp only
      rw [recordEvent_labels]
      exact inside
    split
    · exact Keeps.bind (keeps_tables (keepsEvents_localEvent s)) fun _ => finish
    · exact finish

/-- The visit of an edge removes no event. -/
theorem sTranslateEdge_grows (env : Env) (ctx : ContextPrefix) (q : Instance) (e : Edge) :
    Keeps (tablesFrame labelsGrow) (sTranslateEdge env e ctx q) := by
  have finish : Keeps (tablesFrame labelsGrow) (do
      let ev ← edgeEvent env e ctx q
      let src ← fromExcept (endName env e.src)
      let tgt ← fromExcept (endName env e.dst)
      assertTr (e.actname == "SKIP" || e.actname == "") "e.actname == \"SKIP\" || e.actname == \"\""
      let attr ← fromExcept (edgeAttributes env e ctx q)
      edge (stringOf ctx) src tgt ev attr : Tr Unit) := by
    refine Keeps.bind ?_ fun ev => Keeps.bind (Keeps.lift _) fun src =>
      Keeps.bind (Keeps.lift _) fun tgt => Keeps.bind (Keeps.lift _) fun _ =>
        Keeps.bind (Keeps.lift _) fun attr => keeps_tables (keepsEvents_edge _ _ _ _ _)
    unfold edgeEvent
    split
    · exact Keeps.ret _
    · exact sBuildEdgeLabel_grows env _ _ ctx q
    · exact Keeps.lift _
  unfold sTranslateEdge
  split
  · exact Keeps.bind (keeps_tables (keepsEvents_write _)) fun _ => finish
  · exact finish

end Utot
