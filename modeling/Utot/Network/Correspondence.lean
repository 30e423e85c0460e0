import Utot.Network.Components
import Utot.Order.Processes
import Utot.Run.Whole

/-!
# The networks of a model and of its output

Instances correspond to the processes named after them, locations to their
names, signals to events and stores to valuations.  An edge or a location of an
instance has a line, which says the same, and no process has other lines.
-/

namespace Utot

open Utap Uppaal Library Tchecker

/-! ## What corresponds -/

/-- The event of a signal. -/
inductive SameEvent (env : Env) (tas : TimedAutomataSystem) : Signal → String → Prop where
  | internal : SameEvent env tas .internal tauEvent
  | emit {cell : Cell} {s : String} (named : Named env tas cell s) :
      SameEvent env tas (.emit cell) (emitEvent s)
  | receive {cell : Cell} {s : String} (named : Named env tas cell s) :
      SameEvent env tas (.receive cell) (recvEvent s)

/-- The location of the instance has the name. -/
structure AtPlace (env : Env) (tas : TimedAutomataSystem) (o : Owner) (location : Symbol) (name : String) :
    Prop where
  known : ∃ p, Lives env tas o p ∧ ∃ s ∈ p.templ.states, s.uid = location
  name : name = env.getName location

/-- What corresponds in a model and its output. -/
def dictionary {V : Type} (A : Arithmetic V) (env : Env) (tas : TimedAutomataSystem) :
    Dictionary Owner Symbol Signal (Store V) String String String (Valuation V) where
  names := Names env tas
  places o _ := AtPlace env tas o
  events := SameEvent env tas
  datas := SameData A env tas

section

variable {V : Type} {A : Arithmetic V} {env : Env} {sysname : String} {tas : TimedAutomataSystem}
  {st st' : TrState} {p q : Instance} {e : Edge} {o : Owner} {process name : String} {l : Symbol}

/-! ## Events -/

theorem tauEvent_ne_append {s suffix : String} (long : 3 < suffix.length) : tauEvent ≠ s ++ suffix := by
  intro same
  have lengths := congrArg String.length same
  rw [String.length_append] at lengths
  have three : tauEvent.length = 3 := by decide
  omega

theorem sameEvent_unique (scopes : Scoped env tas) {signal : Signal} {event event' : String}
    (first : SameEvent env tas signal event) (second : SameEvent env tas signal event') :
    event = event' := by
  cases first with
  | internal =>
      cases second
      rfl
  | emit named =>
      cases second with
      | emit named' => rw [named.unique scopes.toDistinctSymbols named']
  | receive named =>
      cases second with
      | receive named' => rw [named.unique scopes.toDistinctSymbols named']

theorem source_unique (scopes : Scoped env tas) (apart : NamesUnconfused env tas)
    {signal signal' : Signal} {event : String} (first : SameEvent env tas signal event)
    (second : SameEvent env tas signal' event) : signal = signal' := by
  have cells {c c' : Cell} {s s' : String} (named : Named env tas c s) (named' : Named env tas c' s')
      (same : s = s') : c = c' := by
    subst same
    exact apart.cell_eq scopes.toDistinctSymbols named named'
  cases first with
  | internal =>
      generalize event' : tauEvent = event at second
      cases second with
      | internal => rfl
      | emit => exact absurd event' (tauEvent_ne_append (by decide))
      | receive => exact absurd event' (tauEvent_ne_append (by decide))
  | @emit c s named =>
      generalize event' : emitEvent s = event at second
      cases second with
      | internal => exact absurd event'.symm (tauEvent_ne_append (by decide))
      | emit named' => rw [cells named named' (emitEvent_inj.mp event')]
      | receive => exact absurd event' (emitEvent_ne_recvEvent _ _)
  | @receive c s named =>
      generalize event' : recvEvent s = event at second
      cases second with
      | internal => exact absurd event'.symm (tauEvent_ne_append (by decide))
      | emit => exact absurd event'.symm (emitEvent_ne_recvEvent _ _)
      | receive named' => rw [cells named named' (recvEvent_inj.mp event')]

/-- What the event of an edge stands for. -/
theorem sameEvent_of_label (scopes : Scoped env tas) (ranges : RangesKnown env tas)
    (lives : Lives env tas o p) {e : Edge} (member : e ∈ p.templ.edges)
    (chooses : Chooses env e.select (instanceWith p o.2) q) (channels : Synchronisable env q e) {event : String}
    (label : EdgeLabel env (prefixOf env p o.2) q e.sync event) {signal : Signal}
    (signals : Signals env o q e.sync signal) : SameEvent env tas signal event := by
  have visited : VisitIn env (instanceWith p o.2) q e :=
    ⟨member, (selects_iff_chooses (ranges.selects o p lives e member)).mpr chooses⟩
  have named {kind : SyncKind} {channel : Expr} {c written : Symbol} {indices : List Int} {s : String}
      (sync : e.sync = some (.sync kind channel)) (symbol : channel.getSymbol? = some written)
      (base : baseLabel env q written (.sync kind channel) (prefixOf env p o.2) = .ok s)
      (denotes : Denotes env (some q) channel c indices) : Named env tas (cellAt env o c indices) s := by
    rw [← cellOf_eq_cellAt lives.uid]
    exact (synchronised_of_exact lives.listed (instanceOf_lives ranges lives) lives.count visited sync symbol
      denotes (channels kind channel sync).2.1 base).named scopes
  generalize sync : e.sync = written at label signals
  cases signals with
  | internal =>
      cases label
      exact .internal
  | emit denotes =>
      cases label with
      | sync symbol base => exact .emit (named sync symbol base denotes)
  | receive denotes =>
      cases label with
      | sync symbol base => exact .receive (named sync symbol base denotes)

theorem exists_signal (channels : Synchronisable env q e) {event : String} {ctx : ContextPrefix}
    (label : EdgeLabel env ctx q e.sync event) :
    ∃ signal, Signals env o q e.sync signal := by
  generalize sync : e.sync = written at label
  cases label with
  | internal => exact ⟨.internal, .internal⟩
  | @sync kind channel _ _ symbol base =>
      obtain ⟨noCsp, _, c, indices, denotes⟩ := channels kind channel sync
      cases kind with
      | que => exact ⟨_, .receive denotes⟩
      | bang => exact ⟨_, .emit denotes⟩
      | csp => exact absurd rfl noCsp

/-! ## Edges -/

section

variable (tractable : Tractable A env tas)

include tractable

/-- The attributes of the line of an edge say what the edge does. -/
theorem sameEffect_of_attributes (process : String) (lives : Lives env tas o p) (member : e ∈ p.templ.edges)
    (chooses : Chooses env e.select (instanceWith p o.2) q) {attr : Attributes}
    (attributes : edgeAttributes env e (prefixOf env p o.2) q = .ok attr) {target : Symbol}
    (dst : e.dst = some target) :
    (∃ P : Valuation V → Prop, Condition A "provided" attr.toList P) ∧
    (∃ G : Valuation V → Option (Valuation V), Does A attr.toList G) ∧
    ∀ f F P G, Means A (some q) e.guard (.value f) → Executes A env (some q) e.assign F →
      Condition A "provided" attr.toList P → Does A attr.toList G →
      (dictionary A env tas).SameEffect o process
        ⟨fun S => Holds A (f (view env o S)), fun S => (F (view env o S)).map (put env o S), target⟩
        ⟨P, G, env.getName target⟩ := by
  obtain ⟨guard, action, printed, printed', provided, does⟩ := attributes_of_edge attributes
  have names := tractable.renderable.names o p lives
  have apart := variablesApart_of_scope tractable.scopes tractable.apart lives
  have readable := tractable.renderable.guards o p lives e member q chooses
  have performable := tractable.renderable.updates o p lives e member q chooses
  have bounds := tractable.layered.bounds o p lives e member q chooses
  obtain ⟨exists', guards⟩ := condition_iff names readable printed provided fun none => by
    by_contra other
    exact none other
  obtain ⟨exists'', ss, stored, performs, runs⟩ := does_iff names apart performable printed' does
  refine ⟨exists', exists'', ?_⟩
  intro f F P G means executes condition does
  constructor
  · intro S τ same
    exact guards P condition f means _ τ (tractable.layered.constants o p lives e member q chooses _
      (same.constants o p lives)) ((same.carries o p lives).ofBounds bounds)
  · intro S τ same
    rw [runs G does]
    exact SameData.update tractable.scopes tractable.apart tractable.layered same lives member chooses
      performable.checked performable.faithful printed' executes stored performs
  · exact ⟨⟨p, lives, tractable.wellFormed.ends p lives.listed e member target (.inr dst)⟩, rfl⟩

theorem ends_of_edge (lives : Lives env tas o p) (member : e ∈ p.templ.edges) {src : Symbol}
    (end' : e.src = some src) : ∃ s ∈ p.templ.states, s.uid = src :=
  tractable.wellFormed.ends p lives.listed e member src (.inl end')

/-- The locations of a process have different names. -/
theorem location_unique (lives : Lives env tas o p) {l' : Symbol} (known : ∃ s ∈ p.templ.states, s.uid = l)
    (known' : ∃ s ∈ p.templ.states, s.uid = l') (same : env.getName l = env.getName l') : l = l' := by
  obtain ⟨s, member, rfl⟩ := known
  obtain ⟨s', member', rfl⟩ := known'
  rw [List.inj_on_of_nodup_map (tractable.wellFormed.states p lives.listed) member member' same]

theorem lives_of_names (named : Names env tas o process) (lives : Lives env tas o p) :
    process = stringOf (prefixOf env p o.2) := by
  obtain ⟨p', lives', rfl⟩ := named
  rw [lives'.unique tractable.scopes.toDistinctSymbols lives]
  rfl

/-- The instance a process of the output is named after. -/
theorem lives_of_instanceOf (named : Names env tas o process) (listed : p ∈ tas.processes)
    {ctx : ContextPrefix} {r : Instance} (inst : InstanceOf env p ctx r) (same : process = stringOf ctx) :
    Lives env tas o p ∧ ctx = prefixOf env p o.2 ∧ r = instanceWith p o.2 := by
  obtain ⟨o', lives, rfl, rfl⟩ := lives_of_instance tractable.ranges listed inst
  have owners : o = o' :=
    owner_unique tractable.scopes.toDistinctSymbols tractable.apart named ⟨p, lives, same⟩
  subst owners
  exact ⟨lives, rfl, rfl⟩

variable (nothing : st.lines = []) (run : exec (translateSystem env sysname tas) st = (.ok (), st'))

include nothing run

/-- An edge of an instance has a line that does the same. -/
theorem edge_answered (named : Names env tas o process) (at' : AtPlace env tas o l name) {signal : Signal}
    {x : Effect Symbol (Store V)} (edge : Uppaal.EdgeOf A env tas o l signal x) :
    ∃ event y, SameEvent env tas signal event ∧ Tchecker.EdgeOf A st'.lines process name event y ∧
      (dictionary A env tas).SameEffect o process x y := by
  cases edge with
  | @edge p q e target _ f F lives member chooses src dst signals guard update =>
  have visit : Visit env tas.processes (prefixOf env p o.2) q e :=
    (visit_iff tractable.ranges).mpr ⟨o, p, lives, rfl, member, chooses⟩
  obtain ⟨line, listed, printed⟩ := edge_of_visit nothing run visit
  cases printed with
  | line src' dst' label attributes =>
  rw [src] at src'
  rw [dst] at dst'
  cases src'
  cases dst'
  obtain ⟨⟨P, provided⟩, ⟨G, does⟩, same⟩ :=
    sameEffect_of_attributes tractable process lives member chooses attributes dst
  rw [← lives_of_names tractable named lives, ← at'.name] at listed
  have channels := tractable.renderable.channels o p lives e member q chooses
  exact ⟨_, _, sameEvent_of_label tractable.scopes tractable.ranges lives member chooses channels label signals,
    .edge listed provided does, same f F P G guard update provided does⟩

/-- A line of an edge is that of an edge of the instance that does the same. -/
theorem edge_answered' (named : Names env tas o process) (at' : AtPlace env tas o l name) {event : String}
    {y : Effect String (Valuation V)} (edge : Tchecker.EdgeOf A st'.lines process name event y) :
    ∃ signal x, SameEvent env tas signal event ∧ Uppaal.EdgeOf A env tas o l signal x ∧
      (dictionary A env tas).SameEffect o process x y := by
  cases edge with
  | @edge target _ attr P G listed provided does =>
  obtain ⟨ctx, q, e, ⟨p, process', r, inst, member, selects⟩, printed⟩ := visit_of_edge nothing run listed
  generalize line : Line.edge process name target event attr = written at printed
  cases printed with
  | @line src tgt event attributes src' dst' label translated =>
  injection line with process'' source target' event' attr'
  subst event' attr' target'
  obtain ⟨lives, rfl, rfl⟩ := lives_of_instanceOf tractable named process' inst process''
  have chooses := (selects_iff_chooses (tractable.ranges.selects o p lives e member)).mp selects
  have source' : src = l := by
    obtain ⟨p', lives', known⟩ := at'.known
    rw [lives'.unique tractable.scopes.toDistinctSymbols lives] at known
    exact location_unique tractable lives (ends_of_edge tractable lives member src') known
      (source.symm.trans at'.name)
  subst source'
  have channels := tractable.renderable.channels o p lives e member q chooses
  obtain ⟨signal, signals⟩ := exists_signal (o := o) channels label
  obtain ⟨f, guard⟩ := (tractable.renderable.guards o p lives e member q chooses).means
  obtain ⟨F, update⟩ := (tractable.renderable.updates o p lives e member q chooses).executes
  obtain ⟨_, _, same⟩ :=
    sameEffect_of_attributes tractable process lives member chooses translated dst'
  exact ⟨signal, _,
    sameEvent_of_label tractable.scopes tractable.ranges lives member chooses channels label signals,
    .edge lives member chooses src' dst' signals guard update, same f F P G guard update provided does⟩

/-! ## Locations -/

/-- A line of the location comes from the location of the instance. -/
theorem state_of_location (named : Names env tas o process) (at' : AtPlace env tas o l name)
    {attr : List (String × String)} (listed : Line.location process name attr ∈ st'.lines) :
    ∃ p s a, Lives env tas o p ∧ s ∈ p.templ.states ∧ s.uid = l ∧ attr = a.toList ∧
      stateAttributes env (prefixOf env p o.2) (instanceWith p o.2) s = .ok a := by
  rcases place_of_location nothing run listed with ⟨p, process', ctx, r, inst, s, state, printed⟩ | stuck
  · generalize line : Line.location process name attr = written at printed
    cases printed with
    | @line a translated =>
    injection line with process'' name' attr'
    obtain ⟨lives, rfl, rfl⟩ := lives_of_instanceOf tractable named process' inst process''
    obtain ⟨p', lives', known⟩ := at'.known
    rw [lives'.unique tractable.scopes.toDistinctSymbols lives] at known
    exact ⟨p, s, a, lives, state, location_unique tractable lives ⟨s, state, rfl⟩ known
      (name'.symm.trans at'.name), attr', translated⟩
  · obtain ⟨p, lives, same⟩ := named
    exact absurd (process_stuck lives.count (same.symm.trans stuck.1)).1
      (tractable.reserved p lives.listed)

theorem location_of_state (named : Names env tas o process) (at' : AtPlace env tas o l name)
    (lives : Lives env tas o p) {s : Utap.State} (state : s ∈ p.templ.states) (uid : s.uid = l) :
    ∃ a, Line.location process name a.toList ∈ st'.lines ∧
      stateAttributes env (prefixOf env p o.2) (instanceWith p o.2) s = .ok a := by
  obtain ⟨line, listed, printed⟩ :=
    location_of_place nothing run lives.listed (instanceOf_lives tractable.ranges lives) state
  cases printed with
  | line translated =>
  rw [← lives_of_names tractable named lives, uid, ← at'.name] at listed
  exact ⟨_, listed, translated⟩

theorem invariant_answered (named : Names env tas o process) (at' : AtPlace env tas o l name)
    {S : Store V} {τ : Valuation V} (same : SameData A env tas S τ) :
    Uppaal.InvariantOf A env tas o l S ↔ Tchecker.InvariantOf A st'.lines process name τ := by
  -- what the attributes of a location of the instance say
  have agrees {p : Instance} {s : Utap.State} {e : Expr} {a : Attributes} (lives : Lives env tas o p)
      (state : s ∈ p.templ.states) (given : s.invariant = some e)
      (translated : stateAttributes env (prefixOf env p o.2) (instanceWith p o.2) s = .ok a) :
      (∃ P : Valuation V → Prop, Condition A "invariant" a.toList P) ∧
        ∀ P, Condition A "invariant" a.toList P → ∀ f,
          Means A (some (instanceWith p o.2)) e (.value f) → (Holds A (f (view env o S)) ↔ P τ) := by
    obtain ⟨inside', _⟩ := attributes_of_state translated
    rw [given] at inside'
    cases inside' with
    | @given _ text printed listed =>
    have readable := tractable.renderable.invariants o p lives s state e given
    have always (text' : String) : ("invariant", text') ∈ a.toList ↔ True ∧ text' = text :=
      (listed text').trans (iff_of_eq (true_and _)).symm
    obtain ⟨exists', holds⟩ := condition_iff (tractable.renderable.names o p lives) readable
      printed always fun none => absurd trivial none
    exact ⟨exists', fun P condition f means =>
      holds P condition f means _ τ (same.constants o p lives) (same.carries o p lives)⟩
  constructor
  · intro holds attr P listed condition
    obtain ⟨p, s, a, lives, state, uid, rfl, translated⟩ :=
      state_of_location tractable nothing run named at' listed
    cases given : s.invariant with
    | none =>
        obtain ⟨inside', _⟩ := attributes_of_state translated
        rw [given] at inside'
        cases inside' with
        | absent unlisted =>
            cases condition with
            | given inside => exact absurd inside (unlisted _)
            | absent => trivial
    | some e =>
        obtain ⟨f, means⟩ := (tractable.renderable.invariants o p lives s state e given).means
        exact ((agrees lives state given translated).2 P condition f means).mp
          (holds p s e f lives state uid given means)
  · intro holds p s e f lives state uid given means
    obtain ⟨a, listed, translated⟩ := location_of_state tractable nothing run named at' lives state uid
    obtain ⟨⟨P, condition⟩, agree⟩ := agrees lives state given translated
    exact (agree P condition f means).mpr (holds _ P listed condition)

/-- A prefix of a location is an attribute. -/
theorem marked_answered (named : Names env tas o process) (at' : AtPlace env tas o l name)
    {key : String} {k : PrefixKind} (marks : ∀ ctx q s a, stateAttributes env ctx q s = .ok a →
      ((∃ text, (key, text) ∈ a.toList) ↔ (env.getType s.uid).is (.pre k) = true)) :
    Prefixed env tas k o l ↔ Marked st'.lines key process name := by
  constructor
  · rintro ⟨p, lives, ⟨s, state, uid⟩, holds⟩
    obtain ⟨a, listed, translated⟩ := location_of_state tractable nothing run named at' lives state uid
    rw [← uid] at holds
    exact ⟨_, listed, (marks _ _ s a translated).mpr holds⟩
  · rintro ⟨attr, listed, marked⟩
    obtain ⟨p, s, a, lives, state, uid, rfl, translated⟩ :=
      state_of_location tractable nothing run named at' listed
    have holds := (marks _ _ s a translated).mp marked
    rw [uid] at holds
    exact ⟨p, lives, ⟨s, state, uid⟩, holds⟩

/-! ## The networks -/

variable {T : Type} (advance : T → V → V) (order : Schedule)

omit tractable nothing run in
/-- An owner that is no instance takes no part. -/
theorem idle_of_nameless (nameless : ¬ ∃ process, Names env tas o process) :
    (Uppaal.network A env tas advance).Idle o := by
  have dead (p : Instance) (lives : Lives env tas o p) : False :=
    nameless ⟨_, p, lives, rfl⟩
  constructor
  · rintro l signal x ⟨lives, _⟩
    exact dead _ lives
  · intro l S p s e f lives
    exact absurd lives fun lives => dead p lives
  · rintro l ⟨p, lives, _⟩
    exact dead p lives
  · rintro l ⟨p, lives, _⟩
    exact dead p lives

/-- A process that is named after no instance takes no part. -/
theorem idle_of_ownerless (ownerless : ¬ ∃ o, Names env tas o process) :
    (Tchecker.network A st'.lines advance order).Idle process := by
  have dead {p : Instance} {ctx : ContextPrefix} {r : Instance} (listed : p ∈ tas.processes)
      (inst : InstanceOf env p ctx r) (same : process = stringOf ctx) : False := by
    obtain ⟨o, lives, rfl, _⟩ := lives_of_instance tractable.ranges listed inst
    exact ownerless ⟨o, p, lives, same⟩
  have plain {name : String} {attr : List (String × String)}
      (listed : Line.location process name attr ∈ st'.lines) : attr = [("initial", "")] := by
    rcases place_of_location nothing run listed with ⟨p, process', ctx, r, inst, s, _, printed⟩ | stuck
    · generalize line : Line.location process name attr = written at printed
      cases printed
      injection line with process''
      exact (dead process' inst process'').elim
    · exact stuck.2
  have unmarked {key name : String} (other : key ≠ "initial") : ¬ Marked st'.lines key process name := by
    rintro ⟨attr, listed, text, inside⟩
    rw [plain listed] at inside
    exact other (congrArg Prod.fst (List.mem_singleton.mp inside))
  constructor
  · rintro name event y ⟨listed, _, _⟩
    obtain ⟨ctx, q, e, ⟨p, process', r, inst, _⟩, printed⟩ := visit_of_edge nothing run listed
    generalize line : Line.edge process name _ event _ = written at printed
    cases printed
    injection line with process''
    exact dead process' inst process''
  · intro name τ attr P listed condition
    rw [plain listed] at condition
    cases condition with
    | given inside =>
        have keys : "invariant" = "initial" := congrArg Prod.fst (List.mem_singleton.mp inside)
        exact absurd keys (by decide)
    | absent => trivial
  · exact fun _ => unmarked (by decide)
  · exact fun _ => unmarked (by decide)

/-- The components of the networks correspond. -/
theorem networks_match : (dictionary A env tas).Matches (Uppaal.network A env tas advance)
    (Tchecker.network A st'.lines advance order) where
  oneName _ _ _ := names_unique tractable.scopes.toDistinctSymbols
  oneOwner _ _ _ := owner_unique tractable.scopes.toDistinctSymbols tractable.apart
  oneEvent _ _ _ := sameEvent_unique tractable.scopes
  oneSource _ _ _ := source_unique tractable.scopes tractable.apart
  answer _ _ _ _ named at' _ _ := edge_answered tractable nothing run named at'
  answer' _ _ _ _ named at' _ _ := edge_answered' tractable nothing run named at'
  invariant _ _ _ _ _ _ named at' same := invariant_answered tractable nothing run named at' same
  committed _ _ _ _ named at' := marked_answered tractable nothing run named at'
    fun _ _ _ _ translated => (attributes_of_state translated).2.1
  urgent _ _ _ _ named at' := marked_answered tractable nothing run named at'
    fun _ _ _ _ translated => (attributes_of_state translated).2.2.1
  elapse t _ _ same := SameData.pass tractable.scopes tractable.apart tractable.ranges tractable.typed nothing
    run same advance t
  idle o := by
    by_cases named : ∃ process, Names env tas o process
    · exact .inl named
    · exact .inr (idle_of_nameless advance named)
  idle' process := by
    by_cases named : ∃ o, Names env tas o process
    · exact .inl named
    · exact .inr (idle_of_ownerless tractable nothing run advance order named)

end

end

end Utot
