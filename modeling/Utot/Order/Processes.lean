import Utot.Labels.Uses
import Utot.Tchecker.Names

/-!
# Declarations before uses: the processes

Four mechanisms introduce events: the set of labels, the set of local events of
a process, the flag of `tau` and the flag of `Stuck`.  They do not consult each
other.  This module follows the lines written up to the end of the loop over the
processes and keeps the record of what has been introduced by whom.
-/

namespace Utot

open Utap Library Tchecker

/-! ## Names of the model -/

/-- The prefixes of the instances of a process, in the order of translation. -/
def instantiations (env : Env) (p : Instance) : Nat → ContextPrefix → List ContextPrefix
  | 0, ctx => [ctx]
  | n + 1, ctx =>
      match p.parameters[n]? with
      | none => []
      | some s =>
          match enumerationBounds env p s with
          | .error _ => []
          | .ok (min, max) => (intRange min max).flatMap fun i =>
              instantiations env p n (ctx ++ [sAssignmentToString env s i])

/-- The names of the processes of the output. -/
def processNames (env : Env) (processes : List Instance) : List String :=
  processes.flatMap fun p => (instantiations env p p.unbound [env.getName p.uid]).map stringOf

/-- A synchronisation on a visited edge of the process `owner`. -/
structure Synchronises (env : Env) (processes : List Instance) (owner : String) (kind : SyncKind)
    (written : Symbol) (s : String) : Prop where
  visited : ∃ ctx q e channel, Visit env processes ctx q e ∧ e.sync = some (.sync kind channel) ∧
    channel.getSymbol? = some written ∧
    baseLabel env q written (.sync kind channel) ctx = .ok s ∧ owner = stringOf ctx

/-- The label of a channel declared in the template of the process `owner`. -/
def LocalLabel (env : Env) (processes : List Instance) (owner s : String) : Prop :=
  ∃ kind written, Synchronises env processes owner kind written s ∧ env.hasParent written = true

/-- An event of a visited edge. -/
def EventUsed (env : Env) (processes : List Instance) (id : String) : Prop :=
  ∃ owner kind written s, Synchronises env processes owner kind written s ∧ id = eventOf kind s

/-- The names a model gives rise to do not clash. -/
structure NamesApart (env : Env) (processes : List Instance) : Prop where
  distinct : (processNames env processes).Nodup
  stuck : stuckProcess ∉ processNames env processes
  /-- The label of a local channel is no event; with `cspEvent` it would be one. -/
  locals : ∀ {owner s}, LocalLabel env processes owner s → ¬ EventUsed env processes s
  owners : ∀ {owner owner' s}, LocalLabel env processes owner s →
    LocalLabel env processes owner' s → owner = owner'
  reserved : ∀ {id}, id = tauEvent ∨ id = noSyncEvent → ¬ EventUsed env processes id
  reservedLocal : ∀ {owner id}, id = tauEvent ∨ id = noSyncEvent → ¬ LocalLabel env processes owner id

/-- What the parser promises: the locations of a template have different names,
and an edge ends in locations of its template or in a branchpoint. -/
structure WellFormed (env : Env) (processes : List Instance) : Prop where
  states : ∀ p ∈ processes, (p.templ.states.map fun s => env.getName s.uid).Nodup
  ends : ∀ p ∈ processes, ∀ e ∈ p.templ.edges, ∀ s, e.src = some s ∨ e.dst = some s →
    ∃ state ∈ p.templ.states, state.uid = s

/-! ## What has been introduced -/

/-- A name has been introduced by a line written so far. -/
def Introduced (st : TrState) (n : Name) : Prop := n ∈ lineNames.names st.lines

theorem introduced_writeLine {st : TrState} {l : Line} {n : Name} :
    Introduced (st.writeLine l) n ↔ Introduced st n ∨ introduces l = some n := by
  unfold Introduced
  rw [TrState.lines_writeLine, mem_names_snoc]
  rfl

/-- The table of the processes that use a label in one direction. -/
def tableOf (kind : SyncKind) (events : GlobalEvents) : ProcTable :=
  match kind with
  | .bang => events.emitters
  | .que => events.receivers
  | .csp => events.csp

theorem mem_tableOf_recordEvent {events : GlobalEvents} {kind kind' : SyncKind}
    {s s' p p' : String} :
    p' ∈ (tableOf kind' (recordEvent events kind s p)).procs s' ↔
      p' ∈ (tableOf kind' events).procs s' ∨ kind' = kind ∧ s' = s ∧ p' = p := by
  have recorded : ∀ table : ProcTable, p' ∈ (table.record s p).procs s' ↔
      p' ∈ table.procs s' ∨ s' = s ∧ p' = p := by
    intro table
    rw [ProcTable.procs_record]
    by_cases same : s = s'
    · subst same
      rw [if_pos rfl, Std.TreeSet.mem_insert, Std.compare_eq_iff_eq]
      constructor
      · rintro (now | before)
        · exact .inr ⟨rfl, now.symm⟩
        · exact .inl before
      · rintro (before | ⟨_, now⟩)
        · exact .inr before
        · exact .inl now.symm
    · rw [if_neg same]
      constructor
      · exact .inl
      · rintro (before | ⟨equal, _⟩)
        · exact before
        · exact absurd equal.symm same
  cases kind <;> cases kind' <;> simp [tableOf, recordEvent, recorded]

/-- A step that introduces nothing and writes no edge. -/
structure Neutral (st st' : TrState) : Prop where
  names : lineNames.names st'.lines = lineNames.names st.lines
  ordered : Ordered lineNames st.lines → Ordered lineNames st'.lines
  edges : ∀ {process src tgt event attr}, Line.edge process src tgt event attr ∈ st'.lines →
    Line.edge process src tgt event attr ∈ st.lines
  events : st'.events = st.events
  tauGenerated : st'.tauGenerated = st.tauGenerated
  localEvents : st'.localEvents = st.localEvents
  addStuckProcess : st'.addStuckProcess = st.addStuckProcess

theorem Neutral.refl (st : TrState) : Neutral st st :=
  ⟨rfl, fun ordered => ordered, fun inside => inside, rfl, rfl, rfl, rfl⟩

theorem Neutral.trans {a b c : TrState} (first : Neutral a b) (second : Neutral b c) :
    Neutral a c where
  names := second.names.trans first.names
  ordered := fun ordered => second.ordered (first.ordered ordered)
  edges := fun inside => first.edges (second.edges inside)
  events := second.events.trans first.events
  tauGenerated := second.tauGenerated.trans first.tauGenerated
  localEvents := second.localEvents.trans first.localEvents
  addStuckProcess := second.addStuckProcess.trans first.addStuckProcess

def neutralFrame : Frame TrState := ⟨Neutral, Neutral.refl, Neutral.trans⟩

/-- Everything but a line with names or an edge. -/
def IsSilent : Output → Prop
  | .line l => introduces l = none ∧ needs l = [] ∧ ∀ process src tgt event attr,
      l ≠ .edge process src tgt event attr
  | _ => True

theorem neutral_write (st : TrState) {o : Output} (silent : IsSilent o) :
    Neutral st (st.write o) := by
  cases o with
  | line l =>
      obtain ⟨anonymous, independent, notEdge⟩ := silent
      have lines : (st.write (.line l)).lines = st.lines ++ [l] := TrState.lines_writeLine st l
      constructor
      · rw [lines, names_snoc, show lineNames.introduces l = none from anonymous]
        exact List.append_nil _
      · intro ordered
        rw [lines]
        refine ordered.snoc ?_ ?_
        · intro n needed
          rw [show lineNames.needs l = [] from independent] at needed
          cases needed
        · intro n now
          rw [show lineNames.introduces l = none from anonymous] at now
          cases now
      · intro process src tgt event attr inside
        rw [lines, List.mem_append, List.mem_singleton] at inside
        rcases inside with before | now
        · exact before
        · exact absurd now.symm (notEdge process src tgt event attr)
      · rfl
      · rfl
      · rfl
      · rfl
  | comment args =>
      have lines := TrState.lines_comment st args
      exact ⟨by rw [lines], by rw [lines]; exact id, by rw [lines]; exact id, rfl, rfl, rfl, rfl⟩
  | blank =>
      have lines := TrState.lines_blank st
      exact ⟨by rw [lines], by rw [lines]; exact id, by rw [lines]; exact id, rfl, rfl, rfl, rfl⟩
  | message level args =>
      have lines := TrState.lines_message st level args
      exact ⟨by rw [lines], by rw [lines]; exact id, by rw [lines]; exact id, rfl, rfl, rfl, rfl⟩

theorem silent_of_declaration {o : Output} (declaration : IsDeclaration o) : IsSilent o := by
  cases o with
  | line l =>
      cases l with
      | clock id size => exact ⟨rfl, rfl, by rintro _ _ _ _ _ ⟨⟩⟩
      | intvar min max init id size => exact ⟨rfl, rfl, by rintro _ _ _ _ _ ⟨⟩⟩
      | _ => cases declaration
  | comment args => trivial
  | blank => trivial
  | message level args => trivial

theorem keepsNeutral_write {o : Output} (silent : IsSilent o) : Keeps neutralFrame (write o) :=
  Keeps.update fun st => neutral_write st silent

theorem keepsNeutral_msg (verboseLevel level : Nat) (args : List Arg) :
    Keeps neutralFrame (msg verboseLevel level args) :=
  Keeps.branch (keepsNeutral_write trivial) (Keeps.ret _)

theorem keepsNeutral_declarations (env : Env) (p : Option Instance) (ctx : ContextPrefix)
    (decl : Declarations) : Keeps neutralFrame (translateDeclarations env p ctx decl) :=
  keeps_translateDeclarations (fun st _ declaration =>
    neutral_write st (silent_of_declaration declaration)) env p fun _ _ _ => trivial

/-! ## The invariant -/

section Invariant

variable {env : Env} {processes : List Instance} {started : List String} {current : String}
  {located : List String} {st st' : TrState}

/-- What holds between two processes; `started` are the processes translated so far. -/
structure Declared (env : Env) (processes : List Instance) (started : List String)
    (st : TrState) : Prop where
  ordered : Ordered lineNames st.lines
  processNames : ∀ {id}, Introduced st (.process id) ↔ id ∈ started
  locations : ∀ {process id}, Introduced st (.location process id) → process ∈ started
  events : ∀ {id}, Introduced st (.event id) → id ∈ st.events.labels ∨
    id = tauEvent ∧ st.tauGenerated = true ∨ ∃ owner ∈ started, LocalLabel env processes owner id
  labels : ∀ {id}, id ∈ st.events.labels →
    Introduced st (.event id) ∧ EventUsed env processes id
  tau : st.tauGenerated = true → Introduced st (.event tauEvent)
  tables : ∀ {kind s process}, process ∈ (tableOf kind st.events).procs s →
    process ∈ started ∧ eventOf kind s ∈ st.events.labels
  edges : ∀ {process src tgt event attr}, Line.edge process src tgt event attr ∈ st.lines →
    event = tauEvent ∨ ∃ kind s, event = eventOf kind s ∧
      process ∈ (tableOf kind st.events).procs s

/-- What holds within a process; `located` are its locations written so far. -/
structure InProcess (env : Env) (processes : List Instance) (started : List String)
    (current : String) (located : List String) (st : TrState) : Prop
    extends Declared env processes started st where
  running : current ∈ started
  own : ∀ {id}, Introduced st (.event id) → LocalLabel env processes current id →
    id ∈ st.localEvents
  places : ∀ {id}, Introduced st (.location current id) ↔ id ∈ located

theorem introduced_neutral (neutral : Neutral st st') {n : Name} :
    Introduced st' n ↔ Introduced st n := by
  unfold Introduced
  rw [neutral.names]

theorem Declared.neutral (holds : Declared env processes started st) (neutral : Neutral st st') :
    Declared env processes started st' where
  ordered := neutral.ordered holds.ordered
  processNames := (introduced_neutral neutral).trans holds.processNames
  locations introduced := holds.locations ((introduced_neutral neutral).mp introduced)
  events introduced := by
    rw [neutral.events, neutral.tauGenerated]
    exact holds.events ((introduced_neutral neutral).mp introduced)
  labels inside := by
    rw [neutral.events] at inside
    rw [introduced_neutral neutral]
    exact holds.labels inside
  tau generated := by
    rw [neutral.tauGenerated] at generated
    rw [introduced_neutral neutral]
    exact holds.tau generated
  tables inside := by
    rw [neutral.events] at inside ⊢
    exact holds.tables inside
  edges inside := by
    rw [neutral.events]
    exact holds.edges (neutral.edges inside)

theorem InProcess.neutral (holds : InProcess env processes started current located st)
    (neutral : Neutral st st') : InProcess env processes started current located st' where
  toDeclared := holds.toDeclared.neutral neutral
  running := holds.running
  own introduced isLocal := by
    rw [neutral.localEvents]
    exact holds.own ((introduced_neutral neutral).mp introduced) isLocal
  places := (introduced_neutral neutral).trans holds.places

/-- A line that uses only what is there and introduces something new. -/
theorem ordered_writeLine (ordered : Ordered lineNames st.lines) {l : Line}
    (used : ∀ n ∈ needs l, Introduced st n)
    (fresh : ∀ n, introduces l = some n → ¬ Introduced st n) :
    Ordered lineNames (st.writeLine l).lines := by
  rw [TrState.lines_writeLine]
  exact ordered.snoc used fresh

/-- The edges behind a line that is not one. -/
theorem edge_mem_writeLine {l : Line} {process src tgt event : String}
    {attr : List (String × String)} (differs : l ≠ .edge process src tgt event attr)
    (inside : Line.edge process src tgt event attr ∈ (st.writeLine l).lines) :
    Line.edge process src tgt event attr ∈ st.lines := by
  rw [TrState.lines_writeLine, List.mem_append, List.mem_singleton] at inside
  rcases inside with before | now
  · exact before
  · exact absurd now.symm differs

/-- The line of a process. -/
theorem Declared.enter (apart : NamesApart env processes)
    (holds : Declared env processes started st) (fresh : current ∉ started) :
    InProcess env processes (started ++ [current]) current []
      (({ st with localEvents := ∅ } : TrState).writeLine (.process current)) := by
  have old : ∀ n, Introduced { st with localEvents := ∅ } n ↔ Introduced st n := fun _ => Iff.rfl
  have only : ∀ {n}, Introduced (({ st with localEvents := ∅ } : TrState).writeLine
      (.process current)) n ↔ Introduced st n ∨ n = .process current := by
    intro n
    rw [introduced_writeLine, old]
    constructor
    · rintro (before | now)
      · exact .inl before
      · exact .inr (Option.some.inj now).symm
    · rintro (before | rfl)
      · exact .inl before
      · exact .inr rfl
  have earlier : ∀ {n}, n ≠ .process current → Introduced (({ st with localEvents := ∅ } :
      TrState).writeLine (.process current)) n → Introduced st n := by
    intro n differs introduced
    rcases only.mp introduced with before | now
    · exact before
    · exact absurd now differs
  constructor
  · constructor
    · refine ordered_writeLine holds.ordered (by rintro n ⟨⟩) ?_
      rintro n ⟨⟩ before
      exact fresh (holds.processNames.mp before)
    · intro id
      rw [only, holds.processNames, List.mem_append, List.mem_singleton, Name.process.injEq]
    · intro process id introduced
      exact List.mem_append_left _ (holds.locations (earlier (by rintro ⟨⟩) introduced))
    · intro id introduced
      rcases holds.events (earlier (by rintro ⟨⟩) introduced) with label | tau | ⟨owner, inside, isLocal⟩
      · exact .inl label
      · exact .inr (.inl tau)
      · exact .inr (.inr ⟨owner, List.mem_append_left _ inside, isLocal⟩)
    · intro id inside
      exact ⟨only.mpr (.inl (holds.labels inside).1), (holds.labels inside).2⟩
    · intro generated
      exact only.mpr (.inl (holds.tau generated))
    · intro kind s process inside
      exact ⟨List.mem_append_left _ (holds.tables inside).1, (holds.tables inside).2⟩
    · intro process src tgt event attr inside
      exact holds.edges (edge_mem_writeLine (by rintro ⟨⟩) inside)
  · exact List.mem_append_right _ (List.mem_singleton_self _)
  · intro id introduced isLocal
    rcases holds.events (earlier (by rintro ⟨⟩) introduced) with label | tau | ⟨owner, inside, other⟩
    · exact absurd (holds.labels label).2 (apart.locals isLocal)
    · exact absurd isLocal (apart.reservedLocal (.inl tau.1))
    · rw [apart.owners other isLocal] at inside
      exact absurd inside fresh
  · intro id
    constructor
    · intro introduced
      exact absurd (holds.locations (earlier (by rintro ⟨⟩) introduced)) fresh
    · rintro ⟨⟩

/-- The line of a location. -/
theorem InProcess.locate (holds : InProcess env processes started current located st) {id : String}
    (fresh : id ∉ located) (attr : List (String × String)) :
    InProcess env processes started current (located ++ [id])
      (st.writeLine (.location current id attr)) := by
  have only : ∀ {n}, Introduced (st.writeLine (.location current id attr)) n ↔
      Introduced st n ∨ n = .location current id := by
    intro n
    rw [introduced_writeLine]
    constructor
    · rintro (before | now)
      · exact .inl before
      · exact .inr (Option.some.inj now).symm
    · rintro (before | rfl)
      · exact .inl before
      · exact .inr rfl
  have earlier : ∀ {n}, n ≠ .location current id →
      Introduced (st.writeLine (.location current id attr)) n → Introduced st n := by
    intro n differs introduced
    rcases only.mp introduced with before | now
    · exact before
    · exact absurd now differs
  constructor
  · constructor
    · refine ordered_writeLine holds.ordered ?_ ?_
      · intro n needed
        rw [List.mem_singleton.mp needed]
        exact holds.processNames.mpr holds.running
      · rintro n ⟨⟩ before
        exact fresh (holds.places.mp before)
    · intro process
      rw [only, ← holds.processNames]
      exact or_iff_left (by rintro ⟨⟩)
    · intro process place introduced
      rcases only.mp introduced with before | now
      · exact holds.locations before
      · cases now
        exact holds.running
    · intro event introduced
      exact holds.events (earlier (by rintro ⟨⟩) introduced)
    · intro event inside
      exact ⟨only.mpr (.inl (holds.labels inside).1), (holds.labels inside).2⟩
    · intro generated
      exact only.mpr (.inl (holds.tau generated))
    · exact holds.tables
    · intro process src tgt event attr' inside
      exact holds.edges (edge_mem_writeLine (by rintro ⟨⟩) inside)
  · exact holds.running
  · intro event introduced
    exact holds.own (earlier (by rintro ⟨⟩) introduced)
  · intro place
    rw [only, holds.places, List.mem_append, List.mem_singleton, Name.location.injEq]
    exact or_congr_right (and_iff_right rfl)

/-- What the three mechanisms that introduce an event within a process have in common. -/
structure Introduces (env : Env) (processes : List Instance) (started : List String)
    (current id : String) (st st' : TrState) : Prop where
  fresh : ¬ Introduced st (.event id)
  lines : st'.lines = st.lines ++ [.event id]
  listed : id ∈ st'.events.labels ∨ id = tauEvent ∧ st'.tauGenerated = true ∨
    ∃ owner ∈ started, LocalLabel env processes owner id
  labels : ∀ {x}, x ∈ st.events.labels → x ∈ st'.events.labels
  newLabel : ∀ {x}, x ∈ st'.events.labels →
    x ∈ st.events.labels ∨ x = id ∧ EventUsed env processes id
  tables : ∀ kind, tableOf kind st'.events = tableOf kind st.events
  tau : st.tauGenerated = true → st'.tauGenerated = true
  newTau : st'.tauGenerated = true → st.tauGenerated = true ∨ id = tauEvent
  own : ∀ {x}, x ∈ st.localEvents → x ∈ st'.localEvents
  newOwn : LocalLabel env processes current id → id ∈ st'.localEvents

theorem InProcess.introduce (holds : InProcess env processes started current located st)
    (id : String) (step : Introduces env processes started current id st st') :
    InProcess env processes started current located st' := by
  have only : ∀ {n}, Introduced st' n ↔ Introduced st n ∨ n = .event id := by
    intro n
    unfold Introduced
    rw [step.lines, mem_names_snoc]
    constructor
    · rintro (before | now)
      · exact .inl before
      · exact .inr (Option.some.inj now).symm
    · rintro (before | rfl)
      · exact .inl before
      · exact .inr rfl
  have earlier : ∀ {n}, n ≠ .event id → (Introduced st' n ↔ Introduced st n) := by
    intro n differs
    rw [only]
    exact or_iff_left differs
  constructor
  · constructor
    · rw [step.lines]
      refine holds.ordered.snoc (by rintro n ⟨⟩) ?_
      rintro n ⟨⟩ before
      exact step.fresh before
    · intro process
      rw [earlier (by rintro ⟨⟩), holds.processNames]
    · intro process place introduced
      exact holds.locations ((earlier (by rintro ⟨⟩)).mp introduced)
    · intro event introduced
      rcases only.mp introduced with before | now
      · rcases holds.events before with label | tau | isLocal
        · exact .inl (step.labels label)
        · exact .inr (.inl ⟨tau.1, step.tau tau.2⟩)
        · exact .inr (.inr isLocal)
      · cases now
        exact step.listed
    · intro event inside
      rcases step.newLabel inside with before | ⟨rfl, used⟩
      · exact ⟨only.mpr (.inl (holds.labels before).1), (holds.labels before).2⟩
      · exact ⟨only.mpr (.inr rfl), used⟩
    · intro generated
      rcases step.newTau generated with before | same
      · exact only.mpr (.inl (holds.tau before))
      · rw [same] at only
        exact only.mpr (.inr rfl)
    · intro kind s process inside
      rw [step.tables] at inside
      exact ⟨(holds.tables inside).1, step.labels (holds.tables inside).2⟩
    · intro process src tgt event attr inside
      rw [step.lines, List.mem_append, List.mem_singleton] at inside
      rcases inside with before | now
      · rcases holds.edges before with tau | ⟨kind, s, same, entered⟩
        · exact .inl tau
        · exact .inr ⟨kind, s, same, by rw [step.tables]; exact entered⟩
      · cases now
  · exact holds.running
  · intro event introduced isLocal
    rcases only.mp introduced with before | now
    · exact step.own (holds.own before isLocal)
    · cases now
      exact step.newOwn isLocal
  · intro place
    rw [earlier (by rintro ⟨⟩), holds.places]

/-- A process is entered for an event that has been introduced. -/
theorem InProcess.record (holds : InProcess env processes started current located st)
    {kind : SyncKind} {s : String} (known : eventOf kind s ∈ st.events.labels) :
    InProcess env processes started current located
      { st with events := recordEvent st.events kind s current } := by
  have same : (recordEvent st.events kind s current).labels = st.events.labels :=
    recordEvent_labels _ _ _ _
  constructor
  · constructor
    · exact holds.ordered
    · exact holds.processNames
    · exact holds.locations
    · intro event introduced
      change event ∈ (recordEvent st.events kind s current).labels ∨ _
      rw [same]
      exact holds.events introduced
    · intro event inside
      change event ∈ (recordEvent st.events kind s current).labels at inside
      rw [same] at inside
      exact holds.labels inside
    · exact holds.tau
    · intro kind' s' process inside
      change _ ∧ _ ∈ (recordEvent st.events kind s current).labels
      rw [same]
      rcases mem_tableOf_recordEvent.mp inside with before | ⟨rfl, rfl, rfl⟩
      · exact holds.tables before
      · exact ⟨holds.running, known⟩
    · intro process src tgt event attr inside
      rcases holds.edges inside with tau | ⟨kind', s', equal, entered⟩
      · exact .inl tau
      · exact .inr ⟨kind', s', equal, mem_tableOf_recordEvent.mpr (.inl entered)⟩
  · exact holds.running
  · exact holds.own
  · exact holds.places

/-- The line of an edge. -/
theorem InProcess.edge (holds : InProcess env processes started current located st)
    {src tgt event : String} (attr : List (String × String)) (source : src ∈ located)
    (target : tgt ∈ located) (introduced : Introduced st (.event event))
    (entered : event = tauEvent ∨ ∃ kind s, event = eventOf kind s ∧
      current ∈ (tableOf kind st.events).procs s) :
    InProcess env processes started current located
      (st.writeLine (.edge current src tgt event attr)) := by
  have same : ∀ {n}, Introduced (st.writeLine (.edge current src tgt event attr)) n ↔
      Introduced st n := by
    intro n
    rw [introduced_writeLine]
    exact or_iff_left (by rintro ⟨⟩)
  constructor
  · constructor
    · refine ordered_writeLine holds.ordered ?_ (by rintro n ⟨⟩)
      intro n needed
      simp only [needs, List.mem_cons, List.not_mem_nil, or_false] at needed
      rcases needed with rfl | rfl | rfl | rfl
      · exact holds.processNames.mpr holds.running
      · exact holds.places.mpr source
      · exact holds.places.mpr target
      · exact introduced
    · exact same.trans holds.processNames
    · intro process place now
      exact holds.locations (same.mp now)
    · intro id now
      exact holds.events (same.mp now)
    · intro id inside
      exact ⟨same.mpr (holds.labels inside).1, (holds.labels inside).2⟩
    · intro generated
      exact same.mpr (holds.tau generated)
    · exact holds.tables
    · intro process src' tgt' event' attr' inside
      rw [TrState.lines_writeLine, List.mem_append, List.mem_singleton] at inside
      rcases inside with before | now
      · exact holds.edges before
      · cases now
        exact entered
  · exact holds.running
  · intro id now
    exact holds.own (same.mp now)
  · exact same.trans holds.places

end Invariant

/-! ## One visit -/

section Visit

variable {env : Env} {processes : List Instance} {started : List String} {located : List String}
  {ctx : ContextPrefix} {q : Instance} {e : Edge}

/-- A neutral program keeps the invariant. -/
theorem spec_neutral {α : Type} {m : Tr α} {current : String} (keeps : Keeps neutralFrame m) :
    Spec (InProcess env processes started current located) m
      (fun _ => InProcess env processes started current located) fun _ => True :=
  (keeps.spec fun _ _ neutral holds => InProcess.neutral holds neutral).weaken (fun _ pre => pre)
    (fun _ _ post => post) fun _ _ => trivial

theorem declareLocalEvent_spec {current s : String}
    (isLocal : LocalLabel env processes current s) :
    Spec (InProcess env processes started current located) (declareLocalEvent s)
      (fun _ => InProcess env processes started current located) fun _ => True := by
  refine Spec.read fun r pre => ?_
  split
  · rename_i unknown
    refine Spec.bind (Q := fun _ st => st = r.writeLine (.event s))
      (Spec.update (by rintro st rfl; rfl)) fun _ => ?_
    refine Spec.update ?_
    rintro st rfl
    refine pre.introduce s ?_
    constructor
    · intro before
      exact unknown (pre.own before isLocal)
    · exact TrState.lines_writeLine r (.event s)
    · exact .inr (.inr ⟨current, pre.running, isLocal⟩)
    · exact fun inside => inside
    · exact fun inside => .inl inside
    · exact fun _ => rfl
    · exact fun generated => generated
    · exact fun generated => .inl generated
    · exact fun inside => Std.TreeSet.mem_insert.mpr (.inr inside)
    · exact fun _ => Std.TreeSet.mem_insert_self
  · exact Spec.ret _ (by rintro st rfl; exact pre)

theorem declareEvent_declares {current s : String} {kind : SyncKind} {written : Symbol}
    (event : Expr) (apart : NamesApart env processes)
    (used : Synchronises env processes current kind written s) :
    Spec (InProcess env processes started current located)
      (declareEvent env written event (eventOf kind s) s)
      (fun _ st => InProcess env processes started current located st ∧
        eventOf kind s ∈ st.events.labels) fun _ => True := by
  have eventUsed : EventUsed env processes (eventOf kind s) := ⟨current, kind, written, s, used, rfl⟩
  have finish : Spec (fun st => InProcess env processes started current located st ∧
      eventOf kind s ∉ st.events.labels) (do
      writeLine (.event (eventOf kind s))
      modify fun st => { st with
        events := { st.events with
          labels := st.events.labels.insert (eventOf kind s)
          brodcasts := if sIsBroadcast env written then st.events.brodcasts.insert s
            else st.events.brodcasts } } : Tr Unit)
      (fun _ st => InProcess env processes started current located st ∧
        eventOf kind s ∈ st.events.labels) (fun _ => True) := by
    refine Spec.bind (Q := fun _ st => ∃ r, (InProcess env processes started current located r ∧
      eventOf kind s ∉ r.events.labels) ∧ st = r.writeLine (.event (eventOf kind s)))
      (Spec.update fun st pre => ⟨st, pre, rfl⟩) fun _ => Spec.update ?_
    rintro st ⟨r, ⟨pre, unknown⟩, rfl⟩
    refine ⟨pre.introduce (eventOf kind s) ?_, Std.TreeSet.mem_insert_self⟩
    constructor
    · intro before
      rcases pre.events before with label | tau | ⟨owner, _, isLocal⟩
      · exact unknown label
      · exact apart.reserved (.inl tau.1) eventUsed
      · exact apart.locals isLocal eventUsed
    · exact TrState.lines_writeLine r (.event (eventOf kind s))
    · exact .inl Std.TreeSet.mem_insert_self
    · exact fun inside => Std.TreeSet.mem_insert.mpr (.inr inside)
    · intro x inside
      rcases Std.TreeSet.mem_insert.mp inside with same | before
      · exact .inr ⟨(Std.compare_eq_iff_eq.mp same).symm, eventUsed⟩
      · exact .inl before
    · intro kind'
      cases kind' <;> rfl
    · exact fun generated => generated
    · exact fun generated => .inl generated
    · exact fun inside => inside
    · intro isLocal
      exact absurd eventUsed (apart.locals isLocal)
  refine Spec.read fun r pre => ?_
  dsimp only
  split
  · rename_i unknown
    have start : ∀ st, st = r → InProcess env processes started current located st ∧
        eventOf kind s ∉ st.events.labels := by
      rintro st rfl
      exact ⟨pre, unknown⟩
    split
    · refine Spec.bind (Q := fun _ st => InProcess env processes started current located st ∧
        eventOf kind s ∉ st.events.labels) ?_ fun _ => finish
      refine ((keepsNeutral_msg _ _ _).spec fun st st' neutral holds => ?_).weaken start
        (fun _ _ post => post) fun _ _ => trivial
      refine ⟨holds.1.neutral neutral, ?_⟩
      rw [show st'.events = st.events from Neutral.events neutral]
      exact holds.2
    · exact finish.weaken start (fun _ _ post => post) fun _ failed => failed
  · rename_i known
    refine Spec.ret _ ?_
    rintro st rfl
    exact ⟨pre, not_not.mp known⟩

/-- The event of a synchronisation is introduced and entered for its process. -/
theorem sBuildEdgeLabel_declares {kind : SyncKind} {channel : Expr}
    (apart : NamesApart env processes) (visit : Visit env processes ctx q e)
    (sync : e.sync = some (.sync kind channel)) :
    Spec (InProcess env processes started (stringOf ctx) located)
      (sBuildEdgeLabel env kind channel ctx q)
      (fun ev st => InProcess env processes started (stringOf ctx) located st ∧
        ∃ kind s, ev = eventOf kind s ∧ stringOf ctx ∈ (tableOf kind st.events).procs s)
      fun _ => True := by
  unfold sBuildEdgeLabel
  dsimp only [Expr.getSymbol?]
  cases symbol : channel.getSymbol? with
  | none => exact Spec.lift (fun _ _ _ failed => by cases failed) fun _ _ _ _ => trivial
  | some written =>
      refine Spec.bind (spec_neutral (keepsNeutral_msg _ _ _)) fun _ => ?_
      refine Spec.liftBind (fun s labelled => ?_) fun _ _ => trivial
      have used : Synchronises env processes (stringOf ctx) kind written s :=
        ⟨ctx, q, e, channel, visit, sync, symbol, labelled, rfl⟩
      have finish : Spec (InProcess env processes started (stringOf ctx) located) (do
          declareEvent env written (.sync kind channel) (eventOf kind s) s
          modify fun st => { st with events := recordEvent st.events kind s (stringOf ctx) }
          pure (eventOf kind s) : Tr String)
          (fun ev st => InProcess env processes started (stringOf ctx) located st ∧
            ∃ kind s, ev = eventOf kind s ∧ stringOf ctx ∈ (tableOf kind st.events).procs s)
          (fun _ => True) := by
        refine Spec.bind (declareEvent_declares _ apart used) fun _ => ?_
        refine Spec.bind (Q := fun _ st => InProcess env processes started (stringOf ctx) located st ∧
          stringOf ctx ∈ (tableOf kind st.events).procs s) (Spec.update fun st pre => ?_) fun _ => ?_
        · exact ⟨pre.1.record pre.2, mem_tableOf_recordEvent.mpr (.inr ⟨rfl, rfl, rfl⟩)⟩
        · exact Spec.ret _ fun st post => ⟨post.1, kind, s, rfl, post.2⟩
      split
      · rename_i isLocal
        exact Spec.bind (declareLocalEvent_spec ⟨kind, written, used, isLocal⟩) fun _ => finish
      · exact finish

/-- The names of the locations of an instance. -/
def stateNames (env : Env) (p : Instance) : List String :=
  p.templ.states.map fun s => env.getName s.uid

/-- The line of an edge whose event is entered in the tables. -/
theorem edge_declares {src tgt ev : String} (attr : Attributes) (apart : NamesApart env processes)
    (source : src ∈ located) (target : tgt ∈ located) :
    Spec (fun st => InProcess env processes started (stringOf ctx) located st ∧
        (ev = tauEvent ∨ ∃ kind s, ev = eventOf kind s ∧
          stringOf ctx ∈ (tableOf kind st.events).procs s))
      (edge (stringOf ctx) src tgt ev attr)
      (fun _ => InProcess env processes started (stringOf ctx) located) fun _ => True := by
  refine Spec.read fun r pre => ?_
  obtain ⟨holds, entered⟩ := pre
  split
  · rename_i missing
    obtain ⟨rfl, absent⟩ := missing
    refine Spec.bind (Q := fun _ st => ∃ r', InProcess env processes started (stringOf ctx) located r' ∧
      r'.tauGenerated = r.tauGenerated ∧ st = r') (Spec.update ?_) fun _ => ?_
    · rintro st rfl
      exact ⟨_, holds.neutral (neutral_write st (o := .comment _) trivial), rfl, rfl⟩
    refine Spec.anyOf fun r' => Spec.assume fun before => Spec.assume fun flag => ?_
    refine Spec.bind (Q := fun _ st => st = r'.writeLine (.event tauEvent))
      (Spec.update (by rintro st rfl; rfl)) fun _ => ?_
    refine Spec.bind (Q := fun _ st => InProcess env processes started (stringOf ctx) located st ∧
      st.tauGenerated = true) (Spec.update ?_) fun _ => ?_
    · rintro st rfl
      refine ⟨before.introduce tauEvent ?_, rfl⟩
      constructor
      · intro introduced
        rcases before.events introduced with label | tau | ⟨owner, _, isLocal⟩
        · exact apart.reserved (.inl rfl) (before.labels label).2
        · rw [flag] at tau
          exact absent tau.2
        · exact apart.reservedLocal (.inl rfl) isLocal
      · exact TrState.lines_writeLine r' (.event tauEvent)
      · exact .inr (.inl ⟨rfl, rfl⟩)
      · exact fun inside => inside
      · exact fun inside => .inl inside
      · exact fun _ => rfl
      · exact fun _ => rfl
      · exact fun _ => .inr rfl
      · exact fun inside => inside
      · intro isLocal
        exact absurd isLocal (apart.reservedLocal (.inl rfl))
    · refine Spec.update fun st post => ?_
      exact post.1.edge _ source target (post.1.tau post.2) (.inl rfl)
  · rename_i present
    refine Spec.update ?_
    rintro st rfl
    refine holds.edge _ source target ?_ entered
    rcases entered with rfl | ⟨kind, s, rfl, inside⟩
    · exact holds.tau (by simpa using present)
    · exact (holds.labels (holds.tables inside).2).1

theorem selects_templ {select : List Symbol} {p : Instance} (selects : Selects env select p q) :
    q.templ = p.templ := by
  induction selects with
  | done p => rfl
  | bind bounds lower upper later ih => exact ih

/-- The visit of an edge keeps the invariant. -/
theorem sTranslateEdge_declares (apart : NamesApart env processes)
    (wellFormed : WellFormed env processes) (visit : Visit env processes ctx q e) :
    Spec (InProcess env processes started (stringOf ctx) (stateNames env q))
      (sTranslateEdge env e ctx q)
      (fun _ => InProcess env processes started (stringOf ctx) (stateNames env q))
      fun _ => True := by
  have label : Spec (InProcess env processes started (stringOf ctx) (stateNames env q))
      (edgeEvent env e ctx q)
      (fun ev st => InProcess env processes started (stringOf ctx) (stateNames env q) st ∧
        (ev = tauEvent ∨ ∃ kind s, ev = eventOf kind s ∧
          stringOf ctx ∈ (tableOf kind st.events).procs s))
      (fun _ => True) := by
    unfold edgeEvent
    split
    · exact Spec.ret _ fun st pre => ⟨pre, .inl rfl⟩
    · rename_i kind channel sync
      exact (sBuildEdgeLabel_declares apart visit sync).weaken (fun _ pre => pre)
        (fun _ _ post => ⟨post.1, .inr post.2⟩) fun _ failed => failed
    · exact Spec.lift (fun _ _ _ failed => by cases failed) fun _ _ _ _ => trivial
  have listed : ∀ s, e.src = some s ∨ e.dst = some s → env.getName s ∈ stateNames env q := by
    obtain ⟨p, member, r, ⟨m, _, rfl⟩, inside, selects⟩ := visit
    intro s ends
    obtain ⟨state, inTemplate, rfl⟩ := wellFormed.ends p member e inside s ends
    unfold stateNames
    rw [selects_templ selects]
    exact List.mem_map.mpr ⟨state, inTemplate, rfl⟩
  have finish : Spec (InProcess env processes started (stringOf ctx) (stateNames env q)) (do
      let ev ← edgeEvent env e ctx q
      let src ← fromExcept (endName env e.src)
      let tgt ← fromExcept (endName env e.dst)
      assertTr (e.actname == "SKIP" || e.actname == "") "e.actname == \"SKIP\" || e.actname == \"\""
      let attr ← fromExcept (edgeAttributes env e ctx q)
      edge (stringOf ctx) src tgt ev attr : Tr Unit)
      (fun _ => InProcess env processes started (stringOf ctx) (stateNames env q))
      (fun _ => True) := by
    refine Spec.bind label fun ev => ?_
    refine Spec.liftBind (fun src source => ?_) fun _ _ => trivial
    refine Spec.liftBind (fun tgt target => ?_) fun _ _ => trivial
    refine Spec.liftBind (fun _ _ => ?_) fun _ _ => trivial
    refine Spec.liftBind (fun attr _ => ?_) fun _ _ => trivial
    refine edge_declares attr apart ?_ ?_
    · cases ends : e.src with
      | none =>
          rw [ends] at source
          cases source
      | some s =>
          rw [ends] at source
          cases source
          exact listed s (.inl ends)
    · cases ends : e.dst with
      | none =>
          rw [ends] at target
          cases target
      | some s =>
          rw [ends] at target
          cases target
          exact listed s (.inr ends)
  unfold sTranslateEdge
  split
  · exact Spec.bind (spec_neutral (keepsNeutral_write (o := .comment _) trivial)) fun _ => finish
  · exact finish

end Visit

/-! ## The loops -/

section Loops

variable {env : Env} {processes : List Instance} {started : List String}

/-- A loop over an interval keeps what each of its rounds keeps. -/
theorem forRange_spec {min max : Int} {body : Int → Tr Unit} {I : TrState → Prop}
    (round : ∀ i, min ≤ i → i ≤ max → Spec I (body i) (fun _ => I) fun _ => True) :
    Spec I (forRange min max body) (fun _ => I) fun _ => True := by
  refine Spec.bind (Q := fun _ => I) (Spec.loop fun i listed => ?_) fun _ => ?_
  · obtain ⟨lower, upper⟩ := mem_intRange.mp listed
    exact round i lower upper
  · split
    · exact Spec.lift (fun _ _ _ failed => by cases failed) fun _ _ _ _ => trivial
    · exact Spec.ret _ fun _ pre => pre

theorem select_spec {e : Edge} {ctx : ContextPrefix} {I : TrState → Prop} (select : List Symbol)
    (p : Instance)
    (visit : ∀ q, Selects env select p q →
      Spec I (sTranslateEdge env e ctx q) (fun _ => I) fun _ => True) :
    Spec I (sTranslateEdgeWithSelect env e ctx select p) (fun _ => I) fun _ => True := by
  induction select generalizing p with
  | nil => exact visit p (.done p)
  | cons sel rest ih =>
      refine Spec.liftBind (fun bounds same => ?_) fun _ _ => trivial
      obtain ⟨min, max⟩ := bounds
      exact forRange_spec fun i lower upper =>
        ih _ fun q later => visit q (.bind same lower upper later)

/-- The lines of the locations. -/
theorem sTranslateStates_declares {ctx : ContextPrefix} {p : Instance}
    (distinct : (stateNames env p).Nodup) :
    Spec (InProcess env processes started (stringOf ctx) []) (sTranslateStates env ctx p)
      (fun _ => InProcess env processes started (stringOf ctx) (stateNames env p))
      fun _ => True := by
  refine Spec.forM (I := fun visited => InProcess env processes started (stringOf ctx)
    (visited.map fun (s : State) => env.getName s.uid)) fun visited s rest split => ?_
  refine Spec.liftBind (fun attr _ => Spec.update fun st pre => ?_) fun _ _ => trivial
  have fresh : env.getName s.uid ∉ visited.map fun (s : State) => env.getName s.uid := by
    unfold stateNames at distinct
    rw [split, List.map_append, List.nodup_append] at distinct
    intro earlier
    exact distinct.2.2 _ earlier _ (List.mem_map.mpr ⟨s, List.mem_cons_self, rfl⟩) rfl
  rw [List.map_append]
  exact pre.locate fresh _

/-- A neutral program between two processes. -/
theorem declared_neutral {α : Type} {m : Tr α} (keeps : Keeps neutralFrame m) :
    Spec (Declared env processes started) m (fun _ => Declared env processes started)
      fun _ => True :=
  (keeps.spec fun _ _ neutral holds => Declared.neutral holds neutral).weaken (fun _ pre => pre)
    (fun _ _ post => post) fun _ _ => trivial

/-- One process of the output. -/
theorem sTranslateInstance_declares {ctx : ContextPrefix} {p : Instance} {m : Mapping}
    (apart : NamesApart env processes) (wellFormed : WellFormed env processes)
    (listed : p ∈ processes)
    (reached : Instantiates env p p.unbound [env.getName p.uid] p.mapping ctx m)
    (fresh : stringOf ctx ∉ started) :
    Spec (Declared env processes started) (sTranslateInstance env ctx p m)
      (fun _ => Declared env processes (started ++ [stringOf ctx])) fun _ => True := by
  let within := InProcess env processes (started ++ [stringOf ctx]) (stringOf ctx)
  have edges : Spec (within (stateNames env p)) (sTranslateEdges env ctx (mergeMapping p m))
      (fun _ => within (stateNames env p)) (fun _ => True) := by
    refine Spec.loop fun e inside => select_spec e.select _ fun q selects => ?_
    have visit : Visit env processes ctx q e :=
      ⟨p, listed, _, ⟨m, reached, rfl⟩, inside, selects⟩
    have same : stateNames env q = stateNames env p := by
      unfold stateNames
      rw [selects_templ selects]
      rfl
    rw [← same]
    exact sTranslateEdge_declares apart wellFormed visit
  have finish : Spec (fun st => ∃ r, Declared env processes started r ∧
      st = { r with localEvents := ∅ }) (do
      writeLine (.process (stringOf ctx))
      translateDeclarations env (mergeMapping p m) ctx (mergeMapping p m).templ.toDeclarations
      sTranslateStates env ctx (mergeMapping p m)
      sTranslateEdges env ctx (mergeMapping p m)
      write .blank : Tr Unit) (fun _ => Declared env processes (started ++ [stringOf ctx]))
      (fun _ => True) := by
    refine Spec.bind (Q := fun _ => within []) (Spec.update ?_) fun _ => ?_
    · rintro st ⟨r, holds, rfl⟩
      exact holds.enter apart fresh
    refine Spec.bind (spec_neutral (keepsNeutral_declarations _ _ _ _)) fun _ => ?_
    refine Spec.bind (sTranslateStates_declares (p := mergeMapping p m)
      (wellFormed.states p listed)) fun _ => ?_
    refine Spec.bind edges fun _ => ?_
    exact (spec_neutral (keepsNeutral_write (o := .blank) trivial)).weaken (fun _ pre => pre)
      (fun _ _ post => InProcess.toDeclared post) fun _ failed => failed
  refine Spec.bind (Q := fun _ st => ∃ r, Declared env processes started r ∧
    st = { r with localEvents := ∅ }) (Spec.update fun st pre => ⟨st, pre, rfl⟩) fun _ => ?_
  refine Spec.liftBind (fun _ _ => ?_) fun _ _ => trivial
  dsimp only
  split
  · refine Spec.bind (Q := fun _ st => ∃ r, Declared env processes started r ∧
      st = { r with localEvents := ∅ }) (Spec.update ?_) fun _ => finish
    rintro st ⟨r, holds, rfl⟩
    exact ⟨r.write (.comment _), holds.neutral (neutral_write r (o := .comment _) trivial), rfl⟩
  · exact finish

/-- The instances of one process, in the order of their prefixes. -/
theorem sTranslateProcessRec_declares {p : Instance} (apart : NamesApart env processes)
    (wellFormed : WellFormed env processes) (listed : p ∈ processes) (n : Nat)
    (ctx : ContextPrefix) (m : Mapping)
    (reached : ∀ {ctx' m'}, Instantiates env p n ctx m ctx' m' →
      Instantiates env p p.unbound [env.getName p.uid] p.mapping ctx' m')
    (started : List String)
    (distinct : (started ++ (instantiations env p n ctx).map stringOf).Nodup) :
    Spec (Declared env processes started) (sTranslateProcessRec env p n ctx m)
      (fun _ => Declared env processes
        (started ++ (instantiations env p n ctx).map stringOf)) fun _ => True := by
  induction n generalizing ctx m started with
  | zero =>
      refine sTranslateInstance_declares apart wellFormed listed (reached (.done ctx m)) ?_
      intro earlier
      rw [List.nodup_append] at distinct
      exact distinct.2.2 _ earlier _ (List.mem_singleton_self _) rfl
  | succ n ih =>
      refine Spec.liftBind (fun s found => ?_) fun _ _ => trivial
      refine Spec.liftBind (fun bounds same => ?_) fun _ _ => trivial
      have parameter : p.parameters[n]? = some s := by
        cases lookup : p.parameters[n]? with
        | none =>
            rw [lookup] at found
            cases found
        | some s' =>
            rw [lookup] at found
            cases found
            rfl
      obtain ⟨min, max⟩ := bounds
      let block (i : Int) : List String :=
        (instantiations env p n (ctx ++ [sAssignmentToString env s i])).map stringOf
      have unrolled : (instantiations env p (n + 1) ctx).map stringOf =
          (intRange min max).flatMap block := by
        rw [instantiations, parameter]
        dsimp only
        rw [same]
        exact List.map_flatMap
      rw [unrolled] at distinct ⊢
      refine Spec.bind (Q := fun _ => Declared env processes
        (started ++ (intRange min max).flatMap block)) ?_ fun _ => ?_
      · refine (Spec.forM (I := fun visited => Declared env processes
          (started ++ visited.flatMap block)) fun visited i rest split => ?_).weaken
          (fun _ pre => by rw [List.flatMap_nil, List.append_nil]; exact pre)
          (fun _ _ post => post) fun _ failed => failed
        have inside : i ∈ intRange min max := by
          rw [split]
          simp
        have grown : started ++ (visited ++ [i]).flatMap block =
            started ++ visited.flatMap block ++ block i := by
          rw [List.flatMap_append, List.flatMap_singleton, List.append_assoc]
        rw [grown]
        refine ih _ _ (fun later => reached (.bind parameter same (mem_intRange.mp inside).1
          (mem_intRange.mp inside).2 later)) _ ?_
        refine List.Nodup.sublist ?_ distinct
        rw [split, List.flatMap_append, List.flatMap_cons, ← List.append_assoc, ← List.append_assoc]
        exact List.sublist_append_left _ _
      · split
        · exact Spec.lift (fun _ _ _ failed => by cases failed) fun _ _ _ _ => trivial
        · exact Spec.ret _ fun _ post => post

/-- The loop over the processes. -/
theorem processes_declare (apart : NamesApart env processes)
    (wellFormed : WellFormed env processes) :
    Spec (Declared env processes []) (processes.forM (sTranslateProcess env))
      (fun _ => Declared env processes (processNames env processes)) fun _ => True := by
  let block (p : Instance) : List String :=
    (instantiations env p p.unbound [env.getName p.uid]).map stringOf
  refine (Spec.forM (I := fun visited => Declared env processes (visited.flatMap block))
    fun visited p rest split => ?_).weaken (fun _ pre => pre) (fun _ _ post => post)
    fun _ failed => failed
  have listed : p ∈ processes := by
    rw [split]
    simp
  have distinct : (visited.flatMap block ++ block p).Nodup := by
    refine List.Nodup.sublist ?_ apart.distinct
    unfold processNames
    rw [split, List.flatMap_append, List.flatMap_cons, ← List.append_assoc]
    exact List.sublist_append_left _ _
  rw [List.flatMap_append, List.flatMap_singleton, process_eq]
  refine Spec.bind (declared_neutral (keepsNeutral_write (o := .comment _) trivial)) fun _ => ?_
  have whole := sTranslateProcessRec_declares apart wellFormed listed p.unbound
    [env.getName p.uid] p.mapping (fun later => later) (visited.flatMap block) distinct
  split
  · exact Spec.bind (declared_neutral (keepsNeutral_msg _ _ _)) fun _ => whole
  · exact whole

end Loops

/-- Everything up to the synchronisation vectors. -/
theorem translateProcesses_declares {env : Env} {tas : TimedAutomataSystem} (sysname : String)
    (apart : NamesApart env tas.processes) (wellFormed : WellFormed env tas.processes) :
    Spec (fun st => st = TrState.initial) (translateProcesses env sysname tas)
      (fun _ => Declared env tas.processes (processNames env tas.processes)) fun _ => True := by
  have start : Declared env tas.processes [] TrState.initial := by
    have nothing : ∀ n, ¬ Introduced TrState.initial n := by
      intro n introduced
      cases introduced
    have entries : ∀ kind s process,
        process ∉ (tableOf kind TrState.initial.events).procs s := by
      intro kind s process inside
      have empty : tableOf kind TrState.initial.events = .empty := by cases kind <;> rfl
      rw [empty, ProcTable.procs_empty] at inside
      exact absurd inside Std.TreeSet.not_mem_emptyc
    constructor
    · exact Ordered.nil
    · intro id
      exact ⟨fun introduced => absurd introduced (nothing _), by rintro ⟨⟩⟩
    · intro process id introduced
      exact absurd introduced (nothing _)
    · intro id introduced
      exact absurd introduced (nothing _)
    · intro id inside
      exact absurd inside Std.TreeSet.not_mem_emptyc
    · rintro ⟨⟩
    · intro kind s process inside
      exact absurd inside (entries kind s process)
    · rintro _ _ _ _ _ ⟨⟩
  have system : Spec (fun st => st = TrState.initial) (writeLine (.system sysname))
      (fun _ => Declared env tas.processes []) (fun _ => True) := by
    refine Spec.update ?_
    rintro st rfl
    exact start.neutral (neutral_write _ (o := .line (.system sysname))
      ⟨rfl, rfl, by rintro _ _ _ _ _ ⟨⟩⟩)
  have sections : Spec (Declared env tas.processes []) (registerIoSections env tas.globals)
      (fun _ => Declared env tas.processes []) (fun _ => True) := by
    unfold registerIoSections
    split
    · exact declared_neutral (keepsNeutral_write (o := .comment _) trivial)
    · refine Spec.read fun r pre => Spec.liftBind (fun allowed _ => ?_) fun _ _ => trivial
      refine Spec.update ?_
      rintro st rfl
      exact ⟨pre.ordered, pre.processNames, pre.locations, pre.events, pre.labels, pre.tau,
        pre.tables, pre.edges⟩
  exact system.bind fun _ =>
    (declared_neutral (keepsNeutral_declarations env none [] tas.globals)).bind fun _ =>
      sections.bind fun _ => processes_declare apart wellFormed

end Utot
