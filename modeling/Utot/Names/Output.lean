import Utot.Labels.Canonical
import Utot.Names.Entities
import Utot.Run.Endings

/-!
# Identifiers a run declares

Every identifier a translation declares is the one of an entity, so that equal
declarations come from equal entities or from names that collide.
-/

namespace Utot

open Utap Library Tchecker

/-- What a line declares. -/
def declares : Line → Option (NameSpace × String)
  | .process id => some (.processes, id)
  | .event id => some (.events, id)
  | .clock id _ => some (.variables, id)
  | .intvar _ _ _ id _ => some (.variables, id)
  | _ => none

/-- The identifier belongs to an entity of the name space. -/
def Known (env : Env) (tas : TimedAutomataSystem) (space : NameSpace) (id : String) : Prop :=
  ∃ entity : Entity, entity.space = space ∧ Identifies env tas entity id

/-- The output declares known identifiers only. -/
def DeclaresKnown (env : Env) (tas : TimedAutomataSystem) (o : Output) : Prop :=
  ∀ l, o = .line l → ∀ declared, declares l = some declared → Known env tas declared.1 declared.2

/-- Changes that declare known identifiers only. -/
def knownFrame (env : Env) (tas : TimedAutomataSystem) : Frame TrState where
  rel s s' := ∀ l ∈ s'.lines, l ∈ s.lines ∨
    ∀ declared, declares l = some declared → Known env tas declared.1 declared.2
  refl _ _ inside := .inl inside
  trans first second l inside := by
    rcases second l inside with before | known
    · exact first l before
    · exact .inr known

section

variable {env : Env} {tas : TimedAutomataSystem}

/-! ## Writing -/

theorem known_write (s : TrState) {o : Output} (known : DeclaresKnown env tas o) :
    (knownFrame env tas).rel s (s.write o) := by
  intro l inside
  unfold TrState.lines linesOf at inside
  rw [TrState.write_trace, List.filterMap_append, List.mem_append] at inside
  rcases inside with before | now
  · exact .inl before
  · right
    cases o with
    | line written =>
        rw [List.mem_singleton.mp now]
        exact known written rfl
    | _ => cases now

theorem keepsKnown_write {o : Output} (known : DeclaresKnown env tas o) :
    Keeps (knownFrame env tas) (write o) :=
  Keeps.update fun s => known_write s known

theorem keepsKnown_message (verboseLevel level : Nat) (args : List Arg) :
    Keeps (knownFrame env tas) (msg verboseLevel level args) :=
  keeps_message (fun s _ _ => known_write s fun _ same => by cases same) verboseLevel level args

theorem keepsKnown_comment (args : List Arg) : Keeps (knownFrame env tas) (commentln args) :=
  keepsKnown_write fun _ same => by cases same

/-- A line that declares an entity. -/
theorem declaresKnown_line {l : Line} {space : NameSpace} {id : String}
    (declared : declares l = some (space, id)) (known : Known env tas space id) :
    DeclaresKnown env tas (.line l) := by
  rintro _ ⟨⟩ declared' same
  rw [declared] at same
  cases same
  exact known

/-- A line without declaration. -/
theorem declaresKnown_silent {l : Line} (silent : declares l = none) :
    DeclaresKnown env tas (.line l) := by
  rintro _ ⟨⟩ declared same
  rw [silent] at same
  cases same

/-! ## Variables -/

theorem keepsKnown_declarations (p : Option Instance) {ctx : ContextPrefix} {decl : Declarations}
    (named : ∀ c ∈ decl.vars, ∀ indices, ∃ cell,
      Named env tas cell (cellName (addPrefix ctx (env.getName c)) indices)) :
    Keeps (knownFrame env tas) (translateDeclarations env p ctx decl) := by
  have writes : ∀ (s : TrState) o, DeclaresOnly (Known env tas .variables) o →
      (knownFrame env tas).rel s (s.write o) := by
    intro s o declaration
    apply known_write
    cases o with
    | line l =>
        cases l with
        | clock id size => exact declaresKnown_line rfl declaration
        | intvar min max init id size => exact declaresKnown_line rfl declaration
        | _ => cases declaration
    | comment args => exact fun _ same => by cases same
    | blank => exact fun _ same => by cases same
    | message level args => exact fun _ same => by cases same
  apply keeps_translateDeclarations writes
  intro c listed indices
  obtain ⟨cell, name⟩ := named c listed indices
  exact ⟨.cell cell, rfl, .cell name⟩

/-! ## Events -/

theorem known_event {cell : Cell} {s : String} (named : Named env tas cell s) (kind : SyncKind) :
    Known env tas .events (eventOf kind s) :=
  ⟨.event kind cell, rfl, .event named kind⟩

/-- What `translate_event_expression` prints has the form of a name. -/
theorem text_of_resolves {q : Instance} {depth : Nat} {e : Expr} {ctx : ContextPrefix} {c : Symbol}
    {text : String} (resolves : Resolves env q e c)
    (printed : translateEventAux env depth (some q) e ctx = .ok text) :
    ∃ indices : List Int, text = cellName (symbolName env ctx c) indices.reverse := by
  induction resolves generalizing depth text with
  | @declared s t unmapped =>
      cases depth with
      | zero => cases printed
      | succ depth =>
          simp only [translateEventAux, mapped?, Option.bind_some, unmapped] at printed
          cases printed
          exact ⟨[], rfl⟩
  | @parameter s c t argument mapped later ih =>
      cases depth with
      | zero => cases printed
      | succ depth =>
          simp only [translateEventAux, mapped?, Option.bind_some, mapped] at printed
          exact ih printed
  | cell _ ih =>
      cases depth with
      | zero => cases printed
      | succ depth =>
          obtain ⟨_, _, printed⟩ := Res.bind_eq_ok.mp printed
          obtain ⟨_, _, printed⟩ := Res.bind_eq_ok.mp printed
          obtain ⟨_, _, printed⟩ := Res.bind_eq_ok.mp printed
          dsimp only at printed
          split at printed
          · obtain ⟨front, array, printed⟩ := Res.bind_eq_ok.mp printed
            obtain ⟨index, _, printed⟩ := Res.bind_eq_ok.mp printed
            obtain ⟨indices, rfl⟩ := ih array
            cases printed
            exact ⟨indices ++ [index], (cellName_append _ _ _).symm⟩
          · cases printed
  | sync _ ih =>
      cases depth with
      | zero => cases printed
      | succ depth => exact ih printed

/-- The base label on a visited edge is the name of a cell. -/
theorem named_of_baseLabel (scopes : Scoped env tas) {p q : Instance} (listed : p ∈ tas.processes)
    {values : List Int} (count : values.length = (openParameters p).length) {e : Edge}
    (visited : VisitIn env (instanceWith p values) q e) {kind : SyncKind} {channel : Expr}
    (sync : e.sync = some (.sync kind channel)) {written : Symbol}
    (symbol : channel.getSymbol? = some written) {s : String}
    (labelled : baseLabel env q written (.sync kind channel) (prefixOf env p values) = .ok s) :
    ∃ cell, Named env tas cell s := by
  obtain ⟨c, resolves⟩ := resolves_of_baseLabel labelled
  obtain ⟨depth, printed⟩ := baseLabel_eq_ok labelled
  obtain ⟨indices, rfl⟩ := text_of_resolves resolves printed
  exact ⟨_, named_in_scope scopes listed count
    (scope_of_resolves scopes listed count visited sync symbol resolves) indices⟩

theorem keepsKnown_localEvent {s : String} (known : Known env tas .events s) :
    Keeps (knownFrame env tas) (declareLocalEvent s) := by
  refine Keeps.bind Keeps.read fun st => ?_
  split
  · exact Keeps.bind (keepsKnown_write (declaresKnown_line rfl known)) fun _ =>
      Keeps.update fun _ _ inside => .inl inside
  · exact Keeps.ret _

theorem keepsKnown_event (channel : Symbol) (event : Expr) {ev : String} (s : String)
    (known : Known env tas .events ev) :
    Keeps (knownFrame env tas) (declareEvent env channel event ev s) := by
  have finish : Keeps (knownFrame env tas) (do
      writeLine (.event ev)
      modify fun st => { st with
        events := { st.events with
          labels := st.events.labels.insert ev
          brodcasts := if sIsBroadcast env channel then st.events.brodcasts.insert s
            else st.events.brodcasts } } : Tr Unit) :=
    Keeps.bind (keepsKnown_write (declaresKnown_line rfl known)) fun _ =>
      Keeps.update fun _ _ inside => .inl inside
  refine Keeps.bind Keeps.read fun st => ?_
  dsimp only
  split
  · split
    · exact Keeps.bind (keepsKnown_message _ _ _) fun _ => finish
    · exact finish
  · exact Keeps.ret _

/-! ## Edges -/

section

variable (scopes : Scoped env tas) {p q : Instance} (listed : p ∈ tas.processes)
  {values : List Int} (count : values.length = (openParameters p).length) {e : Edge}

include scopes listed count

theorem keepsKnown_edgeEvent (visited : VisitIn env (instanceWith p values) q e) :
    Keeps (knownFrame env tas) (edgeEvent env e (prefixOf env p values) q) := by
  unfold edgeEvent
  split
  · exact Keeps.ret _
  · rename_i kind channel sync
    unfold sBuildEdgeLabel
    dsimp only [Expr.getSymbol?]
    cases symbol : channel.getSymbol? with
    | none => exact Keeps.lift _
    | some written =>
        refine Keeps.bind (keepsKnown_message _ _ _) fun _ => Keeps.liftBind fun s labelled => ?_
        obtain ⟨cell, named⟩ :=
          named_of_baseLabel scopes listed count visited sync symbol labelled
        have finish : Keeps (knownFrame env tas) (do
            declareEvent env written (.sync kind channel) (eventOf kind s) s
            modify fun st => { st with
              events := recordEvent st.events kind s (stringOf (prefixOf env p values)) }
            pure (eventOf kind s) : Tr String) :=
          Keeps.bind (keepsKnown_event _ _ _ (known_event named kind)) fun _ =>
            Keeps.bind (Keeps.update fun _ _ inside => .inl inside) fun _ => Keeps.ret _
        split
        · exact Keeps.bind (keepsKnown_localEvent (known_event named .csp)) fun _ => finish
        · exact finish
  · exact Keeps.lift _

theorem keepsKnown_translateEdge (visited : VisitIn env (instanceWith p values) q e) :
    Keeps (knownFrame env tas) (sTranslateEdge env e (prefixOf env p values) q) := by
  have tau : Known env tas .events tauEvent := ⟨.tau, rfl, .tau⟩
  have line (src tgt ev : String) (attr : Attributes) :
      Keeps (knownFrame env tas) (edge (stringOf (prefixOf env p values)) src tgt ev attr) := by
    refine Keeps.bind Keeps.read fun st => ?_
    dsimp only
    split
    · exact Keeps.bind (keepsKnown_comment _) fun _ =>
        Keeps.bind (keepsKnown_write (declaresKnown_line rfl tau)) fun _ =>
          Keeps.bind (Keeps.update fun _ _ inside => .inl inside) fun _ =>
            keepsKnown_write (declaresKnown_silent rfl)
    · exact keepsKnown_write (declaresKnown_silent rfl)
  have finish : Keeps (knownFrame env tas) (do
      let ev ← edgeEvent env e (prefixOf env p values) q
      let src ← fromExcept (endName env e.src)
      let tgt ← fromExcept (endName env e.dst)
      assertTr (e.actname == "SKIP" || e.actname == "") "e.actname == \"SKIP\" || e.actname == \"\""
      let attr ← fromExcept (edgeAttributes env e (prefixOf env p values) q)
      edge (stringOf (prefixOf env p values)) src tgt ev attr : Tr Unit) :=
    Keeps.bind (keepsKnown_edgeEvent scopes listed count visited) fun ev =>
      Keeps.bind (Keeps.lift _) fun src => Keeps.bind (Keeps.lift _) fun tgt =>
        Keeps.bind (Keeps.lift _) fun _ => Keeps.bind (Keeps.lift _) fun attr => line src tgt ev attr
  unfold sTranslateEdge
  split
  · exact Keeps.bind (keepsKnown_comment _) fun _ => finish
  · exact finish

/-! ## Processes -/

theorem keepsKnown_instance {m : Mapping} (whole : mergeMapping p m = instanceWith p values) :
    Keeps (knownFrame env tas) (sTranslateInstance env (prefixOf env p values) p m) := by
  have process : Known env tas .processes (stringOf (prefixOf env p values)) :=
    ⟨.process p.uid values, rfl, .process listed count⟩
  have finish : Keeps (knownFrame env tas) (do
      writeLine (.process (stringOf (prefixOf env p values)))
      translateDeclarations env (mergeMapping p m) (prefixOf env p values)
        (mergeMapping p m).templ.toDeclarations
      sTranslateStates env (prefixOf env p values) (mergeMapping p m)
      sTranslateEdges env (prefixOf env p values) (mergeMapping p m)
      write .blank : Tr Unit) := by
    refine Keeps.bind (keepsKnown_write (declaresKnown_line rfl process)) fun _ =>
      Keeps.bind (keepsKnown_declarations _ fun c declared indices => ?_) fun _ =>
        Keeps.bind (Keeps.forM fun s _ => ?_) fun _ =>
          Keeps.bind (Keeps.forM fun e member => ?_) fun _ =>
            keepsKnown_write fun _ same => by cases same
    · have named : Named env tas _ _ := .inInstance listed count declared indices.reverse
      rw [List.reverse_reverse] at named
      exact ⟨_, named⟩
    · exact Keeps.bind (Keeps.lift _) fun attr => keepsKnown_write (declaresKnown_silent rfl)
    · refine keeps_edgeWithSelect e _ _ _ fun q selects => ?_
      rw [whole] at selects
      exact keepsKnown_translateEdge scopes listed count ⟨member, selects⟩
  refine Keeps.bind (Keeps.update fun _ _ inside => .inl inside) fun _ =>
    Keeps.bind (Keeps.lift _) fun _ => ?_
  dsimp only
  split
  · exact Keeps.bind (keepsKnown_comment _) fun _ => finish
  · exact finish

end

theorem keepsKnown_process (scopes : Scoped env tas) {p : Instance} (listed : p ∈ tas.processes) :
    Keeps (knownFrame env tas) (sTranslateProcess env p) := by
  have instances : Keeps (knownFrame env tas)
      (sTranslateProcessRec env p p.unbound [env.getName p.uid] p.mapping) := by
    refine keeps_processRec p _ _ _ fun ctx m inst => ?_
    obtain ⟨values, count, names, whole⟩ := instanceOf_values ⟨m, inst, rfl⟩
    rw [names]
    exact keepsKnown_instance scopes listed count whole
  rw [process_eq]
  refine Keeps.bind (keepsKnown_comment _) fun _ => ?_
  split
  · exact Keeps.bind (keepsKnown_message _ _ _) fun _ => instances
  · exact instances

/-- The whole translation declares known identifiers only. -/
theorem keepsKnown_system (scopes : Scoped env tas) (sysname : String) :
    Keeps (knownFrame env tas) (translateSystem env sysname tas) := by
  have processes : Keeps (knownFrame env tas) (translateProcesses env sysname tas) := by
    refine Keeps.bind (keepsKnown_write (declaresKnown_silent rfl)) fun _ =>
      Keeps.bind (keepsKnown_declarations _ fun c declared indices => ?_) fun _ =>
        Keeps.bind ?_ fun _ => Keeps.forM fun p listed => keepsKnown_process scopes listed
    · have named : Named env tas _ _ := .inGlobals declared indices.reverse
      rw [List.reverse_reverse] at named
      exact ⟨_, named⟩
    · unfold registerIoSections
      split
      · exact keepsKnown_comment _
      · exact Keeps.bind Keeps.read fun st => Keeps.bind (Keeps.lift _) fun allowed =>
          Keeps.update fun _ _ inside => .inl inside
  refine Keeps.bind processes fun _ => Keeps.bind ?_ fun _ => ?_
  · exact keeps_displayTable (fun s _ _ => known_write s fun _ same => by cases same) env
  · refine keeps_syncVectors (fun s o ending => known_write s ?_) fun _ _ _ _ inside => .inl inside
    cases o with
    | line l =>
        cases l with
        | process id =>
            rw [show id = stuckProcess from ending]
            exact declaresKnown_line rfl ⟨.stuck, rfl, .stuck⟩
        | event id =>
            rw [show id = noSyncEvent from ending]
            exact declaresKnown_line rfl ⟨.nosync, rfl, .nosync⟩
        | location process id attr => exact declaresKnown_silent rfl
        | sync vector => exact declaresKnown_silent rfl
        | _ => cases ending
    | comment args => exact fun _ same => by cases same
    | blank => exact fun _ same => by cases same
    | message level args => exact fun _ same => by cases same

end

end Utot
