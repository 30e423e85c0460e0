import Utot.Network.Initial
import Utot.Network.Rules

/-!
# The output behaves like the model

The transition system of the output, with the lines that have been written, is
bisimilar to that of the model: the same locations are reached and the same
configurations are stuck.
-/

namespace Utot

open Utap Uppaal Library Tchecker

/-- The symbols on the edges are classified as the channels behind them. -/
def ModesClassified (env : Env) (tas : TimedAutomataSystem) : Prop :=
  ∀ kind s written actual, Uses env tas.processes kind s written actual →
    isBroadcastType (env.getType written) = declaredBroadcast (env.getType actual)

/-- What is asked of the channels of a model. -/
structure ChannelsKept {V : Type} (A : Arithmetic V) (env : Env) (tas : TimedAutomataSystem) : Prop where
  classified : ModesClassified env tas
  noSole : NoSoleEmitter A env tas
  /-- Urgent channels are not supported. -/
  calm : ∀ c s, Named env tas c s → declaredUrgent (env.getType c.symbol) = false

/-- The transition system of a model. -/
noncomputable abbrev modelSystem {V T : Type} [LE T] (A : Arithmetic V) (env : Env)
    (tas : TimedAutomataSystem) (advance : T → V → V) : System (Configuration Owner Symbol (Store V)) (Move Owner Signal T) :=
  (Uppaal.network A env tas advance).system (ModelStarts A env tas)

/-- The transition system of a file. -/
noncomputable abbrev outputSystem {V T : Type} [LE T] (A : Arithmetic V) (lines : List Line)
    (advance : T → V → V) (order : Schedule) : System (Configuration String String (Valuation V)) (Move String String T) :=
  (Tchecker.network A lines advance order).system (Tchecker.Starts A lines)

/-- The instances are in the locations. -/
def Located {V : Type} (wanted : List (Owner × Symbol)) (c : Configuration Owner Symbol (Store V)) : Prop :=
  ∀ w ∈ wanted, c.place w.1 = w.2

/-- The processes named after the instances are in the locations of those names. -/
def LocatedByName {V : Type} (env : Env) (tas : TimedAutomataSystem) (wanted : List (Owner × Symbol))
    (c : Configuration String String (Valuation V)) : Prop :=
  ∀ w ∈ wanted, ∃ process, Names env tas w.1 process ∧ c.place process = env.getName w.2

section

variable {V : Type} {A : Arithmetic V} {env : Env} {tas : TimedAutomataSystem}
  (tractable : Tractable A env tas) {c : Configuration Owner Symbol (Store V)}
  {c' : Configuration String String (Valuation V)} (tied : (dictionary A env tas).Tied c c')

include tractable tied

/-- An instance is in a location if its process is in the location of that name. -/
theorem place_iff {o : Owner} {p : Instance} (lives : Lives env tas o p) {l : Symbol}
    (known : ∃ s ∈ p.templ.states, s.uid = l) :
    c.place o = l ↔ ∃ process, Names env tas o process ∧ c'.place process = env.getName l := by
  obtain ⟨⟨p', lives', known'⟩, name⟩ := tied.places o _ ⟨p, lives, rfl⟩
  rw [lives'.unique tractable.scopes.toDistinctSymbols lives] at known'
  constructor
  · rintro rfl
    exact ⟨_, ⟨p, lives, rfl⟩, name⟩
  · rintro ⟨process, named, at'⟩
    rw [names_unique tractable.scopes.toDistinctSymbols named ⟨p, lives, rfl⟩, name] at at'
    exact location_unique tractable lives known' known at'

theorem located_iff {wanted : List (Owner × Symbol)}
    (known : ∀ w ∈ wanted, ∃ p, Lives env tas w.1 p ∧ ∃ s ∈ p.templ.states, s.uid = w.2) :
    Located wanted c ↔ LocatedByName env tas wanted c' := by
  refine forall₂_congr fun w member => ?_
  obtain ⟨p, lives, state⟩ := known w member
  exact place_iff tractable tied lives state

/-- A condition of an instance holds if its text does. -/
theorem holds_iff {o : Owner} {p : Instance} (lives : Lives env tas o p) {e : Expr}
    (readable : Readable A env (some (instanceWith p o.2)) (scopeOf tas p) e) {f : State V → Option V}
    (means : Means A (some (instanceWith p o.2)) e (.value f)) {text : String} {tree : Tree}
    (printed : translateExpression env (some (instanceWith p o.2)) e (prefixOf env p o.2) = .ok text)
    (reads : Reads text tree) : Holds A (f (view env o c.data)) ↔ Holds A (tree.value A c'.data) := by
  obtain ⟨tree', operand, renders⟩ := operand_of_faithful (tractable.renderable.names o p lives)
    readable.faithful readable.checked printed
  rw [reads.unique operand.expression.reads]
  have value := renders V A f means _ _ (tied.datas.constants o p lives) (tied.datas.carries o p lives)
  exact iff_of_eq (congrArg (Holds A) value.symm)

end

section

variable {V T : Type} {A : Arithmetic V} {env : Env} {sysname : String} {tas : TimedAutomataSystem}
  {st st' : TrState} (tractable : Tractable A env tas) (nothing : st.lines = [])
  (run : exec (translateSystem env sysname tas) st = (.ok (), st'))
  (advance : T → V → V) (order : Schedule)

include tractable nothing run

/-- The vectors belong to tables that know the channels of the model. -/
theorem tabled_of_run (fresh : st.events = .empty) (classified : ModesClassified env tas) :
    ∃ events, Tabled A env tas events (vectorsOf st'.lines) := by
  obtain ⟨middle, shown, phases⟩ := exists_phases run
  have plain : SyncKind.bang ≠ .csp ∧ SyncKind.que ≠ .csp := by decide
  refine ⟨middle.events, ?_, ?_, ?_, ?_⟩
  · intro v
    obtain ⟨middle', processes, exact⟩ := mem_vectors (v := v) nothing run
    rw [phases.processes] at processes
    cases processes
    rw [exact, sharedVectors_eq_nil tractable fresh phases.processes]
    exact or_iff_left List.not_mem_nil
  · intro process s
    refine (recorded_iff tractable nothing run fresh phases.processes plain.1).trans ?_
    constructor
    · rintro ⟨o, signal, named, same, offers⟩
      obtain ⟨c, rfl, cell⟩ := emit_of_sameEvent same
      exact ⟨o, c, named, cell, offers⟩
    · rintro ⟨o, c, named, cell, offers⟩
      exact ⟨o, _, named, .emit cell, offers⟩
  · intro process s
    refine (recorded_iff tractable nothing run fresh phases.processes plain.2).trans ?_
    constructor
    · rintro ⟨o, signal, named, same, offers⟩
      obtain ⟨c, rfl, cell⟩ := receive_of_sameEvent same
      exact ⟨o, c, named, cell, offers⟩
    · rintro ⟨o, c, named, cell, offers⟩
      exact ⟨o, _, named, .receive cell, offers⟩
  · have agree := modesAgree_of_classified tractable classified
    have modes {kind : SyncKind} (noCsp : kind ≠ .csp) {o : Owner} {c : Cell} {s : String}
        {signal : Signal} (cell : Named env tas c s) (same : SameEvent env tas signal (eventOf kind s))
        (offers : Offers A env tas o signal) :
        s ∈ middle.events.brodcasts ↔ declaredBroadcast (env.getType c.symbol) = true := by
      obtain ⟨l, x, edge⟩ := id offers
      cases edge with
      | edge lives =>
      obtain ⟨_, c', cell', _, use⟩ :=
        use_of_offers tractable nothing run noCsp ⟨_, lives, rfl⟩ same offers
      rw [same_cell tractable cell cell']
      exact brodcasts_of_uses fresh phases.processes agree use
    rintro o c s cell (offers | offers)
    · exact modes plain.1 cell (.emit cell) offers
    · exact modes plain.2 cell (.receive cell) offers

/-- Who is ready in configurations that correspond. -/
theorem readyAlike_of_tied {c : Configuration Owner Symbol (Store V)}
    {c' : Configuration String String (Valuation V)} (tied : (dictionary A env tas).Tied c c') :
    ReadyAlike A env tas ((Uppaal.network A env tas advance).Ready c)
      ((Tchecker.network A st'.lines advance order).Ready c') := by
  have same := networks_match tractable nothing run advance order
  constructor
  · intro o signal can
    rcases same.idle o with ⟨process, named⟩ | idle
    · obtain ⟨event, event', can'⟩ := same.ready tied named can
      exact ⟨process, event, named, event', can'⟩
    · obtain ⟨x, edge, _⟩ := can
      exact absurd edge (idle.edge _ _ _)
  · intro process event can
    rcases same.idle' process with ⟨o, named⟩ | idle
    · obtain ⟨signal, same', can'⟩ := same.flip.ready tied.flip named can
      exact ⟨o, signal, named, same', can'⟩
    · obtain ⟨x, edge, _⟩ := can
      exact absurd edge (idle.edge _ _ _)
  · rintro o signal ⟨x, edge, _⟩
    exact ⟨_, x, edge⟩

variable (fresh : st.events = .empty)

include fresh

/-! ## Every run of the model is kept -/

section

variable (classified : ModesClassified env tas)

include classified

/-- The joint moves of the model are joint moves of the output. -/
theorem rules_follow : (dictionary A env tas).Follows (Uppaal.network A env tas advance)
    (Tchecker.network A st'.lines advance order) := by
  obtain ⟨events, tabled⟩ := tabled_of_run tractable nothing run fresh classified
  constructor
  · intro c c' l tied together can _
    exact together_forward tractable (readyAlike_of_tied tractable nothing run advance order tied) tabled
      together can
  · exact fun _ _ _ hurried => hurried.elim

variable [LE T] (kept : DeclarationsKept env tas) (commuting : (Uppaal.network A env tas advance).Commuting)

include kept commuting

theorem output_simulates : Simulates (modelSystem A env tas advance)
    (outputSystem A st'.lines advance order) (dictionary A env tas).Tied (dictionary A env tas).Moves := by
  refine (networks_match tractable nothing run advance order).simulates
    (rules_follow tractable nothing run advance order fresh classified) commuting fun c starts => ?_
  obtain ⟨c', starts'⟩ := exists_starts kept nothing run tractable.ranges
  exact ⟨c', starts', tied_of_starts tractable kept nothing run starts starts'⟩

end

/-! ## Every run of the output is one of the model -/

variable (channels : ChannelsKept A env tas)

include channels

/-- The joint moves of both sides correspond. -/
theorem rules_match : (dictionary A env tas).SameRule (Uppaal.network A env tas advance)
    (Tchecker.network A st'.lines advance order) := by
  obtain ⟨events, tabled⟩ := tabled_of_run tractable nothing run fresh channels.classified
  refine ⟨rules_follow tractable nothing run advance order fresh channels.classified, ?_, ?_⟩
  · intro c c' l' tied together can distinct
    exact together_backward tractable (readyAlike_of_tied tractable nothing run advance order tied) tabled
      channels.noSole together can distinct
  · rintro c c' tied ⟨who, _, can, _, o, cell, member, urgent⟩
    obtain ⟨_, _, _, same, _⟩ :=
      (readyAlike_of_tied tractable nothing run advance order tied).forth _ _ (can _ member)
    cases same with
    | emit named =>
    rw [channels.calm _ _ named] at urgent
    cases urgent

variable [LE T] (kept : DeclarationsKept env tas)
  (commuting : (Uppaal.network A env tas advance).Commuting) (possible : ∃ c, ModelStarts A env tas c)

include kept commuting possible

/-- The output is bisimilar to the model. -/
theorem systems_bisimilar : Bisimulates (modelSystem A env tas advance)
    (outputSystem A st'.lines advance order) (dictionary A env tas).Tied (dictionary A env tas).Moves := by
  refine (networks_match tractable nothing run advance order).bisimulates
    (rules_match tractable nothing run advance order fresh channels) commuting ?_ ?_
  · intro c starts
    obtain ⟨c', starts'⟩ := exists_starts kept nothing run tractable.ranges
    exact ⟨c', starts', tied_of_starts tractable kept nothing run starts starts'⟩
  · intro c' starts'
    obtain ⟨c, starts⟩ := possible
    exact ⟨c, starts, tied_of_starts tractable kept nothing run starts starts'⟩

variable {wanted : List (Owner × Symbol)}
  (known : ∀ w ∈ wanted, ∃ p, Lives env tas w.1 p ∧ ∃ s ∈ p.templ.states, s.uid = w.2)

include known

end

/-! ## The relay -/

theorem plain_relay (c : Symbol) : isBroadcastType (relayEnv.getType c) = false ∧
    declaredBroadcast (relayEnv.getType c) = false ∧ declaredUrgent (relayEnv.getType c) = false := by
  match c with
  | 0 | 1 | 2 | 3 | 4 | 5 | 6 | 7 | 8 | 9 => exact ⟨rfl, rfl, rfl⟩
  | _ + 10 => exact ⟨rfl, rfl, rfl⟩

/-- `P` emits, and `Q` receives and changes nothing. -/
theorem edge_relay {o : Owner} {l : Symbol} {signal : Signal} {x : Effect Symbol (Store Int)}
    (edge : Uppaal.EdgeOf integers relayEnv relayModel o l signal x) :
    (o = (3, []) ∧ ∃ c, signal = .emit c) ∨
      o = (4, []) ∧ (∃ c, signal = .receive c) ∧ ∀ S, x.update S = some S := by
  cases edge with
  | edge lives member chooses src dst signals guard update =>
  rcases choice_relay lives member chooses with ⟨rfl, rfl, rfl, rfl⟩ | ⟨rfl, rfl, rfl, rfl⟩
  · cases signals
    exact .inl ⟨rfl, _, rfl⟩
  · cases signals
    cases update
    exact .inr ⟨rfl, ⟨_, rfl⟩, fun S => congrArg some (put_view _ S)⟩

theorem channelsKept_relay : ChannelsKept integers relayEnv relayModel where
  classified _ _ written actual _ := by
    rw [(plain_relay written).1, (plain_relay actual).2.1]
  noSole c o emitters receives o' receives' := by
    obtain ⟨_, _, receive⟩ := receives
    obtain ⟨_, _, emit⟩ := (emitters o).mpr rfl
    rcases edge_relay receive with ⟨_, _, same⟩ | ⟨rfl, _⟩
    · cases same
    · rcases edge_relay emit with ⟨same, _⟩ | ⟨_, ⟨_, same⟩, _⟩
      · cases same
      · cases same
  calm c _ _ := (plain_relay c.symbol).2.2

theorem commuting_relay (advance : ℕ → Int → Int) :
    (Uppaal.network integers relayEnv relayModel advance).Commuting := by
  intro ready who _ i e j f _ _ differ q r x y first second d
  rcases edge_relay first with ⟨rfl, _⟩ | ⟨rfl, _, silent⟩ <;>
    rcases edge_relay second with ⟨rfl, _⟩ | ⟨rfl, _, silent'⟩
  · exact absurd rfl differ
  · rw [funext silent', Option.bind_some, Option.bind_fun_some]
  · rw [funext silent, Option.bind_some, Option.bind_fun_some]
  · exact absurd rfl differ

/-- Clocks go forward by whole units. -/
def relayAdvance (t : ℕ) (v : Int) : Int := v + t

/-- The state a translation of the relay ends in. -/
def relayRun : TrState := (exec (translateSystem relayEnv "relay" relayModel) .initial).2

theorem run_relay : exec (translateSystem relayEnv "relay" relayModel) .initial = (.ok (), relayRun) :=
  Prod.ext rfl rfl

/-- `P` is in `B` and `Q` is in `D`. -/
def relayDone : List (Owner × Symbol) := [((3, []), 7), ((4, []), 9)]

theorem known_relayDone : ∀ w ∈ relayDone, ∃ p, Lives relayEnv relayModel w.1 p ∧
    ∃ s ∈ p.templ.states, s.uid = w.2 := by
  have second {α : Type} {a b : α} : b ∈ [a, b] := List.mem_pair.mpr (.inr rfl)
  intro w member
  rcases List.mem_pair.mp member with rfl | rfl
  · exact ⟨relaySender, ⟨List.mem_cons_self, rfl, .nil⟩, ⟨7, none⟩, second, rfl⟩
  · exact ⟨relayReceiver, ⟨second, rfl, .nil⟩, ⟨9, none⟩, second, rfl⟩

theorem lives_sender : Lives relayEnv relayModel (3, []) relaySender := ⟨List.mem_cons_self, rfl, .nil⟩

theorem readable_sender : Readable integers relayEnv (some (instanceWith relaySender []))
    (scopeOf relayModel relaySender) (relayBound .le 2) :=
  readable_relay lives_sender.listed (by decide) rfl rfl 2

/-- The invariant of `A` and its text have a meaning. -/
theorem bound_relay : ∃ (f : State Int → Option Int) (tree : Tree),
    Means integers (some (instanceWith relaySender [])) (relayBound .le 2) (.value f) ∧
    Reads "(P_x <= 2)" tree := by
  have printed : translateExpression relayEnv (some (instanceWith relaySender [])) (relayBound .le 2)
      (prefixOf relayEnv relaySender []) = .ok "(P_x <= 2)" := rfl
  obtain ⟨f, means⟩ := readable_sender.means
  obtain ⟨tree, operand, _⟩ := operand_of_faithful (tractable_relay.renderable.names _ _ lives_sender)
    readable_sender.faithful readable_sender.checked printed
  exact ⟨f, tree, means, operand.expression.reads⟩

end Utot
