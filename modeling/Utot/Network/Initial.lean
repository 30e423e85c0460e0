import Utot.Network.Correspondence

/-!
# Initial configurations

The initial valuation of the output is the initial store of the model, and its
initial locations are those of the templates.
-/

namespace Utot

open Utap Uppaal Library Tchecker

/-- The store a model starts with: every declared cell has its initial value, and
constants have the values of their initialisers. -/
structure InitialStore {V : Type} (A : Arithmetic V) (env : Env) (tas : TimedAutomataSystem) (S : Store V) :
    Prop where
  constants : ∀ o p, Lives env tas o p → GivesConstants A env (some (instanceWith p o.2)) (view env o S)
  cells : ∀ o p, Lives env tas o p → ∀ c ∈ scopeOf tas p, ∀ indices v, view env o S c indices = some v ↔
    ∃ n, StartsWith env (declarer env (instanceWith p o.2) c) c indices n ∧ v = A.ofInt n

/-- The configurations a model starts in. -/
structure ModelStarts {V : Type} (A : Arithmetic V) (env : Env) (tas : TimedAutomataSystem)
    (c : Configuration Owner Symbol (Store V)) : Prop where
  places : ∀ o p, Lives env tas o p → c.place o = p.templ.init
  data : InitialStore A env tas c.data

/-- What is asked of declarations: none is an exception of the declaration pass, and
the evaluator misreads nothing in them. -/
structure DeclarationsKept (env : Env) (tas : TimedAutomataSystem) : Prop where
  accepted : ∀ o p, Lives env tas o p → ∀ c ∈ scopeOf tas p, Numeric false (env.getType c) →
    AcceptedDeclaration env (declarer env (instanceWith p o.2) c) (env.getType c) (env.initialiser c)
  read : ∀ o p, Lives env tas o p → ∀ c ∈ scopeOf tas p, Numeric false (env.getType c) →
    ReadRight env (declarer env (instanceWith p o.2) c) (env.getType c) (env.initialiser c)
  regular : ∀ o p, Lives env tas o p → ∀ c ∈ scopeOf tas p, Numeric false (env.getType c) →
    Regular env (declarer env (instanceWith p o.2) c) (env.getType c) (env.initialiser c)
  /-- The initial location is one of the template. -/
  init : ∀ p ∈ tas.processes, ∃ s ∈ p.templ.states, s.uid = p.templ.init

section

variable {lines : List Line} {id : String} {covers : Int → Bool} {n : Int}

/-! ## Lines that start something -/

/-- The value comes from a line of the name. -/
theorem line_of_startOf (found : startOf lines id covers = some n) :
    ∃ l ∈ lines, ∃ t size, covers size = true ∧ StartLine t id size n l := by
  obtain ⟨l, listed, start⟩ := List.exists_of_findSome?_eq_some found
  refine ⟨l, listed, ?_⟩
  cases l with
  | clock id' size =>
      obtain ⟨⟨rfl, covered⟩, same⟩ := Option.ite_none_right_eq_some.mp start
      cases same
      exact ⟨.prim .clock, size, covered, .clock .clock⟩
  | intvar lo hi v id' size =>
      obtain ⟨⟨rfl, covered⟩, same⟩ := Option.ite_none_right_eq_some.mp start
      cases same
      exact ⟨.prim .bool, size, covered, .intvar .bool⟩
  | _ => cases start

theorem startOf_ne_none {l : Line} {t : Ty} {size : Int} (listed : l ∈ lines) (start : StartLine t id size n l)
    (covered : covers size = true) : startOf lines id covers ≠ none := by
  intro none
  have here := List.findSome?_eq_none_iff.mp none l listed
  cases start with
  | clock => simp [covered] at here
  | intvar => simp [covered] at here

theorem output_of_startLine {t : Ty} {size : Int} {l : Line} (start : StartLine t id size n l) :
    CellOutput id t l := by
  cases start with
  | clock clocks => exact .clock (isClock_of_clocks clocks)
  | intvar => exact .intvar

end

section

variable {V : Type} {A : Arithmetic V} {env : Env} {sysname : String} {tas : TimedAutomataSystem}
  {st st' : TrState} {p : Instance} {o : Owner} {c : Symbol} {S : Store V}
  (tractable : Tractable A env tas) (kept : DeclarationsKept env tas) (nothing : st.lines = [])
  (run : exec (translateSystem env sysname tas) st = (.ok (), st'))

include tractable kept

/-- The lines of a declaration are a block. -/
theorem block_of_lines (lives : Lives env tas o p) (inside : c ∈ scopeOf tas p) {ls : List Line}
    (printed : LinesOf env p o c ls) : Block env (declarer env (instanceWith p o.2) c)
      (symbolName env (prefixOf env p o.2) c) c ls := by
  rcases tractable.typed.types p lives.listed c inside with numeric | clocks | channels
  · exact block_of_numeric numeric (kept.accepted o p lives c inside numeric)
      (kept.read o p lives c inside numeric) (kept.regular o p lives c inside numeric) printed
  · exact block_of_clocks clocks (tractable.typed.bounds o p lives c inside) printed
  · exact block_of_channels channels printed

include nothing run

/-- A cell that is split starts with the value in its line. -/
theorem scalar_of_initial (initial : InitialStore A env tas S) (lives : Lives env tas o p)
    (inside : c ∈ scopeOf tas p) (split : oneDim env c = false) (indices : List Int) :
    view env o S c indices = (initialValuation A st'.lines).scalar
      (cellName (symbolName env (prefixOf env p o.2) c) indices.reverse) := by
  unfold initialValuation
  dsimp only
  cases found : startOf st'.lines (cellName (symbolName env (prefixOf env p o.2) c) indices.reverse)
      fun size => size = 1 with
  | none =>
      rw [Option.map_none, Option.eq_none_iff_forall_ne_some]
      intro v value
      obtain ⟨n, starts, _⟩ := (initial.cells o p lives c inside indices v).mp value
      obtain ⟨ls, printed, listed⟩ := declared_in_scope run tractable.scopes tractable.ranges lives inside
      obtain ⟨l, member, m, start⟩ :=
        (block_of_lines tractable kept lives inside printed).cell_listed split starts
      exact startOf_ne_none (listed l member) start (decide_eq_true rfl) found
  | some n =>
      obtain ⟨l, listed, t, size, _, start⟩ := line_of_startOf found
      obtain ⟨ls, printed, member⟩ := line_in_scope run tractable.scopes tractable.apart nothing lives inside
        listed (output_of_startLine start)
      have starts := (block_of_lines tractable kept lives inside printed).cell_starts split member start
      exact (initial.cells o p lives c inside indices _).mpr ⟨n, starts, rfl⟩

/-- The cells of an array of TChecker start with the value in its line. -/
theorem cell_of_initial (initial : InitialStore A env tas S) (lives : Lives env tas o p)
    (inside : c ∈ scopeOf tas p) (one : oneDim env c = true) {min max : Int}
    (bounds : indexBounds env (declarer env (instanceWith p o.2) c) (env.getType c) = .ok (min, max)) (i : Int) :
    view env o S c [i] = (initialValuation A st'.lines).cell
      (symbolName env (prefixOf env p o.2) c) (i - min) := by
  have known := tractable.typed.bounds o p lives c inside
  unfold initialValuation
  dsimp only
  cases found : startOf st'.lines (symbolName env (prefixOf env p o.2) c)
      fun size => decide (0 ≤ i - min ∧ i - min < size) with
  | none =>
      rw [Option.map_none, Option.eq_none_iff_forall_ne_some]
      intro v value
      obtain ⟨n, starts, _⟩ := (initial.cells o p lives c inside [i] v).mp value
      obtain ⟨ls, printed, listed⟩ := declared_in_scope run tractable.scopes tractable.ranges lives inside
      obtain ⟨lower, upper, l, member, m, start⟩ :=
        (block_of_lines tractable kept lives inside printed).array_listed one known bounds starts
      exact startOf_ne_none (listed l member) start (decide_eq_true ⟨by omega, by omega⟩) found
  | some n =>
      obtain ⟨l, listed, t, size, covered, start⟩ := line_of_startOf found
      obtain ⟨lower, upper⟩ := of_decide_eq_true covered
      have output : CellOutput (cellName (symbolName env (prefixOf env p o.2) c) ([] : List Int).reverse) t l :=
        output_of_startLine start
      obtain ⟨ls, printed, member⟩ :=
        line_in_scope run tractable.scopes tractable.apart nothing lives inside listed output
      obtain ⟨rfl, cells⟩ :=
        (block_of_lines tractable kept lives inside printed).array_starts one known bounds member start
      exact (initial.cells o p lives c inside [i] _).mpr ⟨n, cells i (by omega) (by omega), rfl⟩

/-- The initial valuation of the output is the initial store of the model. -/
theorem sameData_of_initial (initial : InitialStore A env tas S) :
    SameData A env tas S (initialValuation A st'.lines) := by
  refine ⟨initial.constants, fun o p lives => ⟨?_, ?_⟩, ?_⟩
  · intro c inside split indices
    exact (scalar_of_initial tractable kept nothing run initial lives inside split indices).symm
  · intro c inside one min max bounds i
    have declared : indexBounds env (declarer env (instanceWith p o.2) c) (env.getType c) = .ok (min, max) := by
      rcases mem_scopeOf.mp inside with global | inTemplate
      · rw [declarer, tractable.scopes.globals c (List.mem_of_mem_tail global), if_neg Bool.false_ne_true,
          ← tractable.layered.globals o p lives c global one]
        exact bounds
      · rwa [declarer, if_pos (tractable.scopes.locals p lives.listed c inTemplate)]
    exact (cell_of_initial tractable kept nothing run initial lives inside one declared i).symm
  · intro o p lives c inside clocks indices some'
    obtain ⟨v, value⟩ := Option.ne_none_iff_exists'.mp some'
    obtain ⟨n, starts, _⟩ := (initial.cells o p lives c inside indices v).mp value
    exact starts.declared

omit tractable in
/-- Every process of the output has an initial location. -/
theorem initial_listed (ranges : RangesKnown env tas) {process name : String} {attr : List (String × String)}
    (listed : Line.location process name attr ∈ st'.lines) :
    ∃ name', Marked st'.lines "initial" process name' := by
  rcases place_of_location nothing run listed with ⟨p, process', ctx, r, inst, s, _, printed⟩ | ⟨_, plain⟩
  · generalize line : Line.location process name attr = written at printed
    cases printed with
    | line =>
    injection line with same
    obtain ⟨o, _, _, rfl⟩ := lives_of_instance ranges process' inst
    obtain ⟨s', state, initial⟩ := kept.init p process'
    obtain ⟨l, listed', printed'⟩ := location_of_place nothing run process' inst state
    cases printed' with
    | line translated =>
    obtain ⟨text, marked⟩ := (attributes_of_state translated).2.2.2.mpr initial
    rw [← same] at listed'
    exact ⟨_, _, listed', text, marked⟩
  · exact ⟨name, attr, listed, "", by rw [plain]; exact List.mem_singleton_self _⟩

omit tractable in
/-- The output has an initial configuration. -/
theorem exists_starts (ranges : RangesKnown env tas) : ∃ c', Tchecker.Starts A st'.lines c' := by
  classical
  refine ⟨⟨fun process => if known : ∃ name, Marked st'.lines "initial" process name then known.choose else "",
    initialValuation A st'.lines⟩, fun process name attr listed => ?_, rfl⟩
  have known := initial_listed kept nothing run ranges listed
  dsimp only
  rw [dif_pos known]
  exact known.choose_spec

/-- The initial configurations correspond. -/
theorem tied_of_starts {c : Configuration Owner Symbol (Store V)}
    {c' : Configuration String String (Valuation V)} (starts : ModelStarts A env tas c)
    (starts' : Tchecker.Starts A st'.lines c') : (dictionary A env tas).Tied c c' := by
  constructor
  · rintro o process ⟨p, lives, rfl⟩
    have inst := instanceOf_lives tractable.ranges lives
    obtain ⟨s, state, _⟩ := kept.init p lives.listed
    obtain ⟨l, listed, printed⟩ := location_of_place nothing run lives.listed inst state
    cases printed with
    | line =>
    obtain ⟨attr, listed', marked⟩ := starts'.places _ _ _ listed
    rcases place_of_location nothing run listed' with ⟨q, process', ctx, r, inst', s', state', printed⟩ | stuck
    · generalize line : Line.location _ _ attr = written at printed
      cases printed with
      | line translated =>
      injection line with name place attr'
      subst attr'
      obtain ⟨lives', rfl, rfl⟩ := lives_of_instanceOf tractable ⟨p, lives, rfl⟩ process' inst' name
      obtain rfl := lives.unique tractable.scopes.toDistinctSymbols lives'
      have initial : s'.uid = p.templ.init := (attributes_of_state translated).2.2.2.mp marked
      have at' := starts.places o p lives
      refine ⟨⟨p, lives, s', state', initial.trans at'.symm⟩, place.trans ?_⟩
      rw [initial, at']
    · exact absurd (process_stuck lives.count stuck.1).1 (tractable.reserved p lives.listed)
  · rw [starts'.data]
    exact sameData_of_initial tractable kept nothing run starts.data

end

/-! ## The beginning of the relay -/

theorem noConstant_relay (c : Symbol) : (relayEnv.getType c).isConstant = false := by
  match c with
  | 0 | 1 | 2 | 3 | 4 | 5 | 6 | 7 | 8 | 9 => rfl
  | _ + 10 => rfl

theorem numeric_relay {p : Instance} (listed : p ∈ relayModel.processes) {c : Symbol}
    (inside : c ∈ scopeOf relayModel p) (numeric : Numeric false (relayEnv.getType c)) : c = 2 := by
  rcases scope_relay listed inside with rfl | rfl | ⟨rfl, _⟩
  · cases numeric
  · rfl
  · cases numeric

theorem declarationsKept_relay : DeclarationsKept relayEnv relayModel where
  accepted o p lives c inside numeric := by
    cases numeric_relay lives.listed inside numeric
    refine ⟨fun x bound => ?_, fun e given => (by cases given), fun _ _ _ given => (by cases given)⟩
    rcases List.mem_pair.mp bound with rfl | rfl
    · exact (knowable_constant ⟨by decide, by decide⟩).toComputable
    · exact (knowable_constant ⟨by decide, by decide⟩).toComputable
  read o p lives c inside numeric := by
    cases numeric_relay lives.listed inside numeric
    refine ⟨fun x bound => ?_, fun e _ _ _ given => (by cases given), fun _ _ given => (by cases given)⟩
    rcases List.mem_pair.mp bound with rfl | rfl
    · exact readRightly_of_not_misreads (not_misreads_constant 0 _)
    · exact readRightly_of_not_misreads (not_misreads_constant 5 _)
  regular o p lives c inside numeric := by
    cases numeric_relay lives.listed inside numeric
    refine ⟨fun lo one => (by cases one), fun e given => (by cases given), ?_, ?_⟩
    · intro e ranges indices x v lo hi constant
      cases constant
    · intro e ranges indices x one
      cases one
  init := by decide

/-- Variables and clocks are zero. -/
def relayStore : Store Int := fun cell =>
  if cell.symbol ≠ 1 ∧ cell.indices = [] then some 0 else none

/-- `P` starts in `A` and `Q` in `C`. -/
def relayStart : Configuration Owner Symbol (Store Int) :=
  ⟨fun o => if o = (3, []) then 6 else 8, relayStore⟩

theorem declared_relay {p : Option Instance} {c : Symbol} {indices : List Int}
    (flat : dimensions (relayEnv.getType c) = []) :
    DeclaredCell relayEnv p c indices ↔ indices = [] := by
  unfold DeclaredCell IndexRanges
  rw [flat]
  constructor
  · rintro ⟨ranges, ranged, inside⟩
    cases ranged
    exact List.mem_singleton.mp inside
  · rintro rfl
    exact ⟨[], .nil, List.mem_singleton_self _⟩

theorem cell_relay {p : Option Instance} {indices : List Int} {lo hi v : Int}
    (cell : CellAt relayEnv p (relayEnv.getType 2) [] (relayEnv.initialiser 2) indices lo hi v) : v = 0 := by
  cases cell with
  | default cell =>
  cases cell with
  | default _ ranged =>
  cases ranged with
  | range least greatest =>
  cases Contains.unique (.integer rfl) least
  cases Contains.unique (.integer rfl) greatest
  rfl

theorem starts_relay {p : Option Instance} {c : Symbol} (declared : c = 1 ∨ c = 2 ∨ c = 5)
    {indices : List Int} {n : Int} :
    StartsWith relayEnv p c indices n ↔ (c ≠ 1 ∧ indices = []) ∧ n = 0 := by
  rcases declared with rfl | rfl | rfl
  · refine iff_of_false ?_ fun other => other.1.1 rfl
    rintro (⟨clocks, _⟩ | ⟨numeric⟩)
    · cases clocks
    · cases numeric
  · constructor
    · rintro (clocks | ⟨numeric, ranged, inside, cell⟩)
      · cases clocks
      · cases ranged
        exact ⟨⟨by decide, List.mem_singleton.mp inside⟩, cell_relay cell⟩
    · rintro ⟨⟨_, rfl⟩, rfl⟩
      have ranged : IndexRanges relayEnv p (relayEnv.getType 2) [] := .nil
      have cell : CellOfType relayEnv p (relayEnv.getType 2) none 0 5
          (if (0 : Int) ≤ 0 ∧ (0 : Int) ≤ 5 then 0 else 0) := .default rfl (.range (.integer rfl) (.integer rfl))
      exact .variable' .bounded ranged (List.mem_singleton_self _) (.default cell)
  · constructor
    · rintro (⟨_, declared⟩ | ⟨numeric⟩)
      · exact ⟨⟨by decide, (declared_relay rfl).mp declared⟩, rfl⟩
      · cases numeric
    · rintro ⟨⟨_, rfl⟩, rfl⟩
      exact .clock .clock ((declared_relay rfl).mpr rfl)

theorem modelStarts_relay : ModelStarts integers relayEnv relayModel relayStart where
  places o p lives := by
    rcases lives_relay lives with ⟨rfl, rfl⟩ | ⟨rfl, rfl⟩ <;> rfl
  data := by
    constructor
    · intro o p lives c init indices v constant
      rw [noConstant_relay] at constant
      cases constant
    · intro o p lives c inside indices v
      have declared : c = 1 ∨ c = 2 ∨ c = 5 := by
        rcases scope_relay lives.listed inside with same | same | ⟨same, _⟩ <;> simp [same]
      simp only [starts_relay declared]
      change (if c ≠ 1 ∧ indices = [] then some 0 else none) = some v ↔ _
      constructor
      · intro value
        obtain ⟨here, zero⟩ := Option.ite_none_right_eq_some.mp value
        exact ⟨0, ⟨here, rfl⟩, (Option.some.inj zero).symm⟩
      · rintro ⟨n, ⟨here, rfl⟩, rfl⟩
        exact if_pos here

end Utot
