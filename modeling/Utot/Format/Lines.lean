import Utot.Format.File
import Utot.Format.Texts
import Utot.Labels.Canonical
import Utot.Order.Vectors
import Utot.Run.Selections

/-!
# Lines a run writes

Every line in front of the synchronisation vectors can be read back, no comment
spills, and the tables of events hold tokens; so the vectors made from them can
be read back as well.
-/

namespace Utot

open Utap Library Tchecker

/-! ## Steps -/

/-- A step that writes what can be read back, and records tokens. -/
structure Sound (d : Dumps) (st st' : TrState) : Prop where
  outputs : ∀ o ∈ st'.trace, o ∈ st.trace ∨ Writable d o
  tables : ∀ {kind label process}, process ∈ (tableOf kind st'.events).procs label →
    process ∈ (tableOf kind st.events).procs label ∨ IsToken label ∧ IsToken process

def soundFrame (d : Dumps) : Frame TrState where
  rel := Sound d
  refl st := ⟨fun _ inside => .inl inside, .inl⟩
  trans first second := by
    constructor
    · intro o inside
      rcases second.outputs o inside with before | writable
      · exact first.outputs o before
      · exact .inr writable
    · intro kind label process inside
      rcases second.tables inside with before | tokens
      · exact first.tables before
      · exact .inr tokens

section

variable {d : Dumps}

theorem sound_write (st : TrState) {o : Output} (writable : Writable d o) : Sound d st (st.write o) := by
  refine ⟨fun o' inside => ?_, .inl⟩
  rcases List.mem_append.mp inside with before | now
  · exact .inl before
  · rw [List.mem_singleton.mp now]
    exact .inr writable

/-- A step that leaves the output and the tables alone. -/
theorem sound_of_same {st st' : TrState} (trace : st'.trace = st.trace)
    (tables : ∀ kind, tableOf kind st'.events = tableOf kind st.events) : Sound d st st' := by
  refine ⟨fun o inside => .inl ?_, fun {kind label process} inside => .inl ?_⟩
  · rwa [← trace]
  · rwa [← tables]

theorem keepsSound_line {l : Line} (readable : Readable l) : Keeps (soundFrame d) (writeLine l) :=
  Keeps.update fun st => sound_write st readable

theorem keepsSound_comment {args : List Arg} (oneLine : ∀ arg ∈ args, '\n' ∉ argText d arg) :
    Keeps (soundFrame d) (commentln args) :=
  Keeps.update fun st => sound_write st oneLine

theorem keepsSound_message (verboseLevel level : Nat) (args : List Arg) :
    Keeps (soundFrame d) (msg verboseLevel level args) :=
  keeps_message (fun st level args => @sound_write d st (.message level args) trivial)
    verboseLevel level args

/-- A comment of fixed words. -/
theorem keepsSound_words {text : String} (oneLine : '\n' ∉ text.toList) :
    Keeps (soundFrame d) (commentln [.text text]) :=
  keepsSound_comment (List.forall_mem_singleton.mpr oneLine)

end

/-! ## Names -/

section

variable {env : Env} {tas : TimedAutomataSystem} {d : Dumps}

theorem newline_not_mem_name {s : Symbol} (lexed : Lexed env s) : '\n' ∉ (env.getName s).toList := by
  intro inside
  unfold Lexed at lexed
  cases name : (env.getName s).toList with
  | nil =>
      rw [name] at inside
      cases inside
  | cons c rest =>
      rw [name] at lexed inside
      have all := ((Bool.and_eq_true _ _).mp lexed).2
      exact absurd (List.all_eq_true.mp all '\n' inside) (by decide)

theorem newline_not_mem_int (i : Int) : '\n' ∉ intText i :=
  letter_not_mem_intText rfl (by decide) i

theorem newline_not_mem_addPrefix {ctx : ContextPrefix} {name : String}
    (parts : ∀ part ∈ ctx, '\n' ∉ part.toList) (name' : '\n' ∉ name.toList) :
    '\n' ∉ (addPrefix ctx name).toList := by
  cases ctx with
  | nil => exact name'
  | cons first rest =>
      rw [toList_addPrefix]
      have joined' : '\n' ∉ joined '_' String.toList rest := by
        intro inside
        obtain ⟨part, listed, member⟩ := List.mem_flatMap.mp inside
        rcases List.mem_cons.mp member with sign | later
        · cases sign
        · exact parts part (List.mem_cons_of_mem _ listed) later
      simp [parts first List.mem_cons_self, joined', name']

theorem newline_not_mem_cellName {name : String} (S : List Int) (name' : '\n' ∉ name.toList) :
    '\n' ∉ (cellName name S).toList := by
  have text := toList_cellName name S.reverse
  rw [List.reverse_reverse] at text
  rw [text, List.mem_append, not_or]
  refine ⟨name', fun inside => ?_⟩
  obtain ⟨i, _, member⟩ := List.mem_flatMap.mp inside
  rcases List.mem_cons.mp member with sign | later
  · cases sign
  · exact newline_not_mem_int i later

theorem innermost_of_cellIndices {p : Option Instance} {t cell : Ty} {S S' : List Int}
    (indices : CellIndices env p t S S' cell) : innermost t = cell := by
  induction indices with
  | @cell type S single =>
      cases type with
      | array sub size => exact absurd rfl single
      | _ => rfl
  | sub _ _ _ _ ih => exact ih

/-- An array TChecker has is none of channels. -/
theorem writesLines_of_whole {p : Option Instance} {s : Symbol}
    {found : Int × Int × Ty × Option Expr}
    (whole : oneDimDeclaration env p (stripLabels (env.getType s)) (env.initialiser s) =
      .ok (some found)) (array : (stripLabels (env.getType s)).kind = .array) :
    writesLines (env.getType s) = true := by
  obtain ⟨_, answer, _⟩ := oneDimDeclaration_eq_ok whole
  have looks : looksOneDim (stripLabels (env.getType s)) = true :=
    ((Bool.and_eq_true _ _).mp answer.symm).1
  unfold writesLines
  cases type : stripLabels (env.getType s) with
  | array sub size =>
      rw [type] at looks
      obtain ⟨single, kind⟩ := (Bool.and_eq_true _ _).mp (show (!sub.isArray && _) = true from looks)
      cases sub with
      | array sub' size' => cases single
      | ref t => rfl
      | label name t => rfl
      | prim k => cases k <;> first | rfl | cases kind
      | pre k t => cases kind
      | range t lower upper => rfl
      | record labels fields => cases kind
  | _ =>
      rw [type] at array
      cases array

end

/-- The channel behind the name of a channel cell. -/
theorem resolves_of_nameOf {env : Env} {q : Instance} {split : Expr → Prop} {e : Expr} {c : Symbol}
    {indices : List Int} (name : NameOf env (some q) split e c indices) : Resolves env q e c := by
  induction name with
  | declared unbound => exact .declared unbound
  | parameter bound _ ih => exact .parameter bound ih
  | cell _ _ _ ih => exact .cell ih
  | sync _ _ ih => exact .sync ih

theorem isToken_eventOf {s : String} (token : IsToken s) (kind : SyncKind) :
    IsToken (eventOf kind s) := by
  cases kind with
  | que => exact isToken_concat token (List.all_eq_true.mp (by decide))
  | bang => exact isToken_concat token (List.all_eq_true.mp (by decide))
  | csp => exact token

/-! ## Events -/

section

variable {env : Env} {d : Dumps} {s : String}

theorem keepsSound_localEvent (token : IsToken s) : Keeps (soundFrame d) (declareLocalEvent s) :=
  Keeps.bind Keeps.read fun _ => Keeps.branch
    (Keeps.bind (keepsSound_line token) fun _ => Keeps.update fun _ => sound_of_same rfl fun _ => rfl)
    (Keeps.ret _)

theorem keepsSound_event (channel : Symbol) (event : Expr) {ev : String} (token : IsToken ev) :
    Keeps (soundFrame d) (declareEvent env channel event ev s) := by
  have finish : Keeps (soundFrame d) (do
      writeLine (.event ev)
      modify fun st => { st with
        events := { st.events with
          labels := st.events.labels.insert ev
          brodcasts := if sIsBroadcast env channel then st.events.brodcasts.insert s
            else st.events.brodcasts } } : Tr Unit) :=
    Keeps.bind (keepsSound_line token) fun _ =>
      Keeps.update fun _ => sound_of_same rfl fun kind => by cases kind <;> rfl
  refine Keeps.bind Keeps.read fun st => ?_
  dsimp only
  split
  · split
    · exact Keeps.bind (keepsSound_message _ _ _) fun _ => finish
    · exact finish
  · exact Keeps.ret _

theorem keepsSound_record (kind : SyncKind) {process : String} (label : IsToken s)
    (token : IsToken process) : Keeps (soundFrame d)
      (modify fun st => { st with events := recordEvent st.events kind s process } : Tr Unit) := by
  refine Keeps.update fun st => ⟨fun _ inside => .inl inside, fun {kind' label' process'} inside => ?_⟩
  rcases mem_tableOf_recordEvent.mp inside with before | ⟨_, rfl, rfl⟩
  · exact .inl before
  · exact .inr ⟨label, token⟩

end

/-! ## Plain models -/

/-- The names of the model come from the lexer and are plain where they are
printed on lines, and what comments show is on one line. -/
structure Printable (env : Env) (tas : TimedAutomataSystem) (d : Dumps) : Prop extends
    PlainNames env tas where
  lexed : ∀ s, Mentioned env tas s → Lexed env s
  oneLine : d.OneLine

section

variable {env : Env} {tas : TimedAutomataSystem} {d : Dumps} (printable : Printable env tas d)

include printable

theorem Printable.token {s : Symbol} (shown : Shown env tas s) : IsToken (env.getName s) :=
  isToken_of_lexed (printable.lexed s (.shown shown)) (printable.symbols s shown)

theorem Printable.prefixes {p : Instance} (listed : p ∈ tas.processes) {values : List Int}
    (count : values.length = (openParameters p).length)
    (inst : InstanceOf env p (prefixOf env p values) (instanceWith p values)) :
    PlainPrefix (prefixOf env p values) := by
  have natural := printable.values p listed values count inst
  have parts : ∀ (names : List Symbol) (values : List Int), (∀ s ∈ names, s ∈ openParameters p) →
      (∀ i ∈ values, 0 ≤ i) → ∀ part ∈ List.zipWith (sAssignmentToString env) names values,
        IsToken part := by
    intro names
    induction names with
    | nil => simp
    | cons s names ih =>
        intro values open' natural part listed'
        cases values with
        | nil => cases listed'
        | cons i values =>
            rcases List.mem_cons.mp listed' with rfl | later
            · exact isToken_assignment (printable.token (.parameter listed (open' s List.mem_cons_self)))
                (natural i List.mem_cons_self)
            · exact ih values (fun s' inside => open' s' (List.mem_cons_of_mem _ inside))
                (fun j inside => natural j (List.mem_cons_of_mem _ inside)) part later
  intro part listed'
  rcases List.mem_cons.mp listed' with rfl | later
  · exact printable.token (.process listed)
  · exact parts _ _ (fun _ inside => inside) natural part later

/-! ### Declarations -/

/-- What a declaration writes can be read back. -/
theorem Printable.declaration {p : Option Instance} {s : Symbol} (declared : DeclaredBy env tas p s)
    {ctx : ContextPrefix} (prefixes : PlainPrefix ctx) {o : Output}
    (written : DeclarationWrites env p ctx s o) : Writable d o := by
  have noNewline : '\n' ∉ (env.getName s).toList :=
    newline_not_mem_name (printable.lexed s (.declared declared))
  have noNewline' : '\n' ∉ (addPrefix ctx (env.getName s)).toList :=
    newline_not_mem_addPrefix (fun part listed => (prefixes part listed).not_mem (by decide)) noNewline
  have token (lines : writesLines (env.getType s) = true) :
      IsToken (addPrefix ctx (env.getName s)) :=
    isToken_addPrefix prefixes (printable.token (.declared declared lines))
  have single {t : Ty} (kind : t.kind ≠ .array) : innermost t = t := by
    cases t with
    | array sub size => exact absurd rfl kind
    | _ => rfl
  cases written with
  | header =>
      refine List.forall_mem_cons.mpr ⟨noNewline, ?_⟩
      exact List.forall_mem_cons.mpr ⟨show '\n' ∉ ":".toList by decide,
        List.forall_mem_singleton.mpr (printable.oneLine.type _)⟩
  | event =>
      exact List.forall_mem_cons.mpr ⟨show '\n' ∉ "global event: ".toList by decide,
        List.forall_mem_singleton.mpr noNewline'⟩
  | oneDim => exact List.forall_mem_singleton.mpr (show '\n' ∉ "one dim array.".toList by decide)
  | oneDimClock =>
      exact List.forall_mem_singleton.mpr (show '\n' ∉ "one dim clock array.".toList by decide)
  | clock other kind =>
      refine token ?_
      rw [writesLines, single kind, other]
      rfl
  | intvar other kind =>
      refine token ?_
      rw [writesLines, single kind, other]
      rfl
  | clockArray array whole => exact token (writesLines_of_whole whole array)
  | intvarArray array whole => exact token (writesLines_of_whole whole array)
  | @cell S type o split indices written =>
      have cellToken (other : isEventKind type.kind = false) :
          IsToken (cellName (addPrefix ctx (env.getName s)) S) := by
        refine isToken_cellName (token ?_) (printable.cells p s declared split S type indices other)
        rw [writesLines, innermost_of_cellIndices indices, other]
        rfl
      cases written with
      | event =>
          exact List.forall_mem_cons.mpr
            ⟨show '\n' ∉ "event to synchronize: ".toList by decide,
              List.forall_mem_singleton.mpr (newline_not_mem_cellName S noNewline')⟩
      | clock other => exact cellToken other
      | intvar other min max init => exact cellToken other
      | message level args => exact trivial
  | message level args => exact trivial

/-! ### Edges -/

theorem Printable.clean {ctx : ContextPrefix} {q : Instance} (prefixes : PlainPrefix ctx) {e : Expr}
    (translated : Translated env tas ctx q e) : CleanNames env (some q) ctx e := by
  intro s t inside unbound
  exact (isToken_symbolName prefixes (printable.token (.reference translated inside unbound))).unseparated

section

variable {ctx : ContextPrefix} {q : Instance} {e : Edge} (prefixes : PlainPrefix ctx)

include prefixes

/-- The base label of a synchronisation is a token. -/
theorem Printable.label (visit : Visit env tas.processes ctx q e) {kind : SyncKind} {channel : Expr}
    (sync : e.sync = some (.sync kind channel)) {written : Symbol} {s : String}
    (labelled : baseLabel env q written (.sync kind channel) ctx = .ok s) : IsToken s := by
  obtain ⟨depth, printed⟩ := baseLabel_eq_ok labelled
  obtain ⟨c, indices, name, rfl⟩ := translateEventAux_channelName printed
  have natural := printable.channels ctx q e kind channel c indices visit sync name
  have token := printable.token (.channel visit sync (resolves_of_nameOf name))
  refine isToken_cellName (isToken_symbolName ?_ token) fun i inside =>
    natural i (List.mem_reverse.mp inside)
  split
  · exact prefixes
  · exact fun _ inside => by cases inside

theorem keepsSound_edgeEvent (nonempty : ctx ≠ []) (visit : Visit env tas.processes ctx q e) :
    Keeps (soundFrame d) (edgeEvent env e ctx q) := by
  unfold edgeEvent
  split
  · exact Keeps.ret _
  · rename_i kind channel sync
    unfold sBuildEdgeLabel
    dsimp only [Expr.getSymbol?]
    cases symbol : channel.getSymbol? with
    | none => exact Keeps.lift _
    | some written =>
        refine Keeps.bind (keepsSound_message _ _ _) fun _ => Keeps.liftBind fun s labelled => ?_
        have token := printable.label prefixes visit sync labelled
        have finish : Keeps (soundFrame d) (do
            declareEvent env written (.sync kind channel) (eventOf kind s) s
            modify fun st => { st with events := recordEvent st.events kind s (stringOf ctx) }
            pure (eventOf kind s) : Tr String) :=
          Keeps.bind (keepsSound_event _ _ (isToken_eventOf token kind)) fun _ =>
            Keeps.bind (keepsSound_record kind token (isToken_stringOf prefixes nonempty)) fun _ =>
              Keeps.ret _
        split
        · exact Keeps.bind (keepsSound_localEvent token) fun _ => finish
        · exact finish
  · exact Keeps.lift _

/-- The event of an edge is a token. -/
theorem Printable.event (visit : Visit env tas.processes ctx q e) {ev : String} {st st' : TrState}
    (run : exec (edgeEvent env e ctx q) st = (.ok ev, st')) : IsToken ev := by
  obtain ⟨_, _, _, label⟩ := appends_edgeEvent q st st' ev run
  generalize given : e.sync = sync at label
  cases label with
  | internal => exact (by decide : IsToken tauEvent)
  | @sync kind reference channel label symbol base =>
      exact isToken_eventOf (printable.label prefixes visit given base) kind

omit printable in
theorem keepsSound_edge (nonempty : ctx ≠ []) {src tgt ev : String} (source : IsToken src)
    (target : IsToken tgt) (event : IsToken ev) {attr : Attributes} (clean : CleanAttributes attr) :
    Keeps (soundFrame d) (edge (stringOf ctx) src tgt ev attr) := by
  have process := isToken_stringOf prefixes nonempty
  have readable : Readable (.edge (stringOf ctx) src tgt ev attr.toList) :=
    ⟨process, source, target, event, clean⟩
  refine Keeps.bind Keeps.read fun st => ?_
  dsimp only
  split
  · refine Keeps.bind (keepsSound_words (by decide)) fun _ => ?_
    refine Keeps.bind (keepsSound_line (by decide : IsToken tauEvent)) fun _ => ?_
    exact Keeps.bind (Keeps.update fun _ => sound_of_same rfl fun _ => rfl) fun _ =>
      keepsSound_line readable
  · exact keepsSound_line readable

theorem keepsSound_translateEdge (nonempty : ctx ≠ []) (visit : Visit env tas.processes ctx q e) :
    Keeps (soundFrame d) (sTranslateEdge env e ctx q) := by
  obtain ⟨p, listed, member⟩ : ∃ p ∈ tas.processes, e ∈ p.templ.edges := by
    obtain ⟨p, listed, _, ⟨m, _, rfl⟩, member, _⟩ := visit
    exact ⟨p, listed, member⟩
  have finish : Keeps (soundFrame d) (do
      let ev ← edgeEvent env e ctx q
      let src ← fromExcept (endName env e.src)
      let tgt ← fromExcept (endName env e.dst)
      assertTr (e.actname == "SKIP" || e.actname == "") "e.actname == \"SKIP\" || e.actname == \"\""
      let attr ← fromExcept (edgeAttributes env e ctx q)
      edge (stringOf ctx) src tgt ev attr : Tr Unit) := by
    refine Keeps.bindReturned (keepsSound_edgeEvent printable prefixes nonempty visit)
      fun ev st st' run => ?_
    refine Keeps.liftBind fun src source => Keeps.liftBind fun tgt target => ?_
    refine Keeps.bind (Keeps.lift _) fun _ => Keeps.liftBind fun attr computed => ?_
    have named {o : Option Symbol} {name : String} (ends : o = e.src ∨ o = e.dst)
        (returned : endName env o = .ok name) : IsToken name := by
      cases o with
      | none => cases returned
      | some s =>
          cases returned
          exact printable.token (.ending listed member (ends.imp Eq.symm Eq.symm))
    exact keepsSound_edge prefixes nonempty (named (.inl rfl) source) (named (.inr rfl) target)
      (printable.event prefixes visit run)
      (edgeAttributes_clean (printable.clean prefixes (.guard visit))
        (printable.clean prefixes (.update visit)) computed)
  have comment : Keeps (soundFrame d) (commentln (selectionComment env q e.select)) := by
    refine keepsSound_comment (List.forall_mem_cons.mpr
      ⟨show '\n' ∉ "edge with selection:".toList by decide, fun arg inside => ?_⟩)
    obtain ⟨s, selected, part⟩ := List.mem_flatMap.mp inside
    have name := newline_not_mem_name (printable.lexed s (.select listed member selected))
    have blank : '\n' ∉ " ".toList := by decide
    have equals : '\n' ∉ " = ".toList := by decide
    rcases List.mem_append.mp part with words | value
    · simp only [List.mem_cons, List.not_mem_nil, or_false] at words
      rcases words with rfl | rfl | rfl
      · exact blank
      · exact name
      · exact equals
    · split at value
      · rw [List.mem_singleton.mp value]
        exact printable.oneLine.expr _
      · cases value
  unfold sTranslateEdge
  split
  · exact Keeps.bind comment fun _ => finish
  · exact finish

end

/-! ### Processes -/

theorem keepsSound_instance {p : Instance} (listed : p ∈ tas.processes) {values : List Int}
    (count : values.length = (openParameters p).length) {m : Mapping}
    (inst : InstanceOf env p (prefixOf env p values) (mergeMapping p m))
    (whole : mergeMapping p m = instanceWith p values) :
    Keeps (soundFrame d) (sTranslateInstance env (prefixOf env p values) p m) := by
  have prefixes : PlainPrefix (prefixOf env p values) :=
    printable.prefixes listed count (whole ▸ inst)
  have nonempty : prefixOf env p values ≠ [] := List.cons_ne_nil _ _
  have process : IsToken (stringOf (prefixOf env p values)) := isToken_stringOf prefixes nonempty
  have finish : Keeps (soundFrame d) (do
      writeLine (.process (stringOf (prefixOf env p values)))
      translateDeclarations env (mergeMapping p m) (prefixOf env p values)
        (mergeMapping p m).templ.toDeclarations
      sTranslateStates env (prefixOf env p values) (mergeMapping p m)
      sTranslateEdges env (prefixOf env p values) (mergeMapping p m)
      write .blank : Tr Unit) := by
    refine Keeps.bind (keepsSound_line process) fun _ => ?_
    refine Keeps.bind (keeps_declarations env _ fun s declared st o written => ?_) fun _ => ?_
    · exact sound_write st (printable.declaration (.inTemplate listed inst declared) prefixes written)
    refine Keeps.bind (Keeps.forM fun st member => ?_) fun _ => ?_
    · refine Keeps.liftBind fun attr computed => keepsSound_line ⟨process, ?_, ?_⟩
      · exact printable.token (.location listed member)
      · exact stateAttributes_clean (fun e given =>
          printable.clean prefixes (.invariant listed inst member given)) computed
    refine Keeps.bind (Keeps.forM fun e member => ?_) fun _ =>
      Keeps.update fun st => sound_write st trivial
    refine keeps_edgeWithSelect e _ _ _ fun q selects => ?_
    exact keepsSound_translateEdge printable prefixes nonempty ⟨p, listed, _, inst, member, selects⟩
  refine Keeps.bind (Keeps.update fun _ => sound_of_same rfl fun _ => rfl) fun _ =>
    Keeps.bind (Keeps.lift _) fun _ => ?_
  dsimp only
  split
  · refine Keeps.bind (keepsSound_comment (List.forall_mem_cons.mpr
      ⟨show '\n' ∉ "instantiation as ".toList by decide, ?_⟩)) fun _ => finish
    exact List.forall_mem_singleton.mpr (process.not_mem (by decide))
  · exact finish

theorem keepsSound_process {p : Instance} (listed : p ∈ tas.processes) :
    Keeps (soundFrame d) (sTranslateProcess env p) := by
  have instances : Keeps (soundFrame d)
      (sTranslateProcessRec env p p.unbound [env.getName p.uid] p.mapping) := by
    refine keeps_processRec p _ _ _ fun ctx m inst => ?_
    obtain ⟨values, count, names, whole⟩ := instanceOf_values ⟨m, inst, rfl⟩
    subst names
    exact keepsSound_instance printable listed count ⟨m, inst, rfl⟩ whole
  have name : '\n' ∉ (env.getName p.uid).toList :=
    newline_not_mem_name (printable.lexed _ (.shown (.process listed)))
  rw [process_eq]
  refine Keeps.bind (keepsSound_comment (List.forall_mem_cons.mpr
    ⟨show '\n' ∉ "compilation of process ".toList by decide,
      List.forall_mem_singleton.mpr name⟩)) fun _ => ?_
  split
  · exact Keeps.bind (keepsSound_message _ _ _) fun _ => instances
  · exact instances

/-- Everything up to the vectors can be read back. -/
theorem keepsSound_processes {sysname : String} (system : Unseparated sysname.toList) :
    Keeps (soundFrame d) (translateProcesses env sysname tas) := by
  refine Keeps.bind (keepsSound_line system) fun _ => ?_
  refine Keeps.bind (keeps_declarations env none fun s declared st o written => ?_) fun _ => ?_
  · exact sound_write st (printable.declaration (.inGlobals declared)
      (fun _ inside => by cases inside) written)
  refine Keeps.bind ?_ fun _ => Keeps.forM fun p listed => keepsSound_process printable listed
  unfold registerIoSections
  split
  · exact keepsSound_words (by decide)
  · exact Keeps.bind Keeps.read fun st => Keeps.bind (Keeps.lift _) fun allowed =>
      Keeps.update fun _ => sound_of_same rfl fun kind => by cases kind <;> rfl

end

end Utot
