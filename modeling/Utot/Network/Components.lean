import Utot.Labels.Canonical
import Utot.Meaning.Declarations
import Utot.Network.Clocks

/-!
# Components correspond

What an instance of a process can do in a state of its data, the process of the
output named after it can do in data that agree: its edges have the same guards,
updates and events, and its locations the same invariants and prefixes.
-/

namespace Utot

open Utap Uppaal Library Tchecker

/-! ## Attributes -/

section

variable {env : Env} {ctx : ContextPrefix} {q : Instance} {e : Edge} {attr : Attributes}

theorem mem_attributes {key text : String} : (key, text) ∈ attr.toList ↔ attr[key]? = some text :=
  Std.TreeMap.mem_toList_iff_getElem?_eq_some

theorem mem_insert_attributes {key key' text text' : String} :
    (key, text) ∈ (attr.insert key' text').toList ↔
      if key' = key then text = text' else (key, text) ∈ attr.toList := by
  rw [mem_attributes, mem_attributes, Std.TreeMap.getElem?_insert]
  by_cases same : key' = key
  · rw [if_pos same, if_pos (Std.compare_eq_iff_eq.mpr same), Option.some.injEq]
    exact eq_comm
  · rw [if_neg same, if_neg fun equal => same (Std.compare_eq_iff_eq.mp equal)]

theorem not_mem_empty {key text : String} : (key, text) ∉ (∅ : Attributes).toList := by
  rw [mem_attributes]
  simp

/-- An attribute that is left out under a condition. -/
theorem mem_optional {c : Prop} [Decidable c] {key text : String} (value : String)
    (absent : ∀ text, (key, text) ∉ attr.toList) :
    (key, text) ∈ (if c then attr.insert key value else attr).toList ↔ c ∧ text = value := by
  split
  · rename_i holds
    rw [mem_insert_attributes, if_pos rfl]
    exact (and_iff_right holds).symm
  · rename_i fails
    exact ⟨fun listed => absurd listed (absent text), fun both => absurd both.1 fails⟩

theorem mem_other {c : Prop} [Decidable c] {key key' text : String} (value : String) (differ : key' ≠ key) :
    (key, text) ∈ (if c then attr.insert key' value else attr).toList ↔ (key, text) ∈ attr.toList := by
  split
  · rw [mem_insert_attributes, if_neg differ]
  · rfl

/-- The attributes of an edge, and when they are left out. -/
theorem attributes_of_edge (translated : edgeAttributes env e ctx q = .ok attr) :
    ∃ guard action, translateExpression env q e.guard ctx = .ok guard ∧
      translateAssignment env q e.assign ctx = .ok action ∧
      (∀ text, ("provided", text) ∈ attr.toList ↔ guard ≠ "1" ∧ text = guard) ∧
      ∀ text, ("do", text) ∈ attr.toList ↔ action ≠ doNop ∧ text = action := by
  obtain ⟨guard, first, translated⟩ := Res.bind_eq_ok.mp translated
  obtain ⟨action, second, translated⟩ := Res.bind_eq_ok.mp translated
  cases translated
  refine ⟨guard, action, first, second, fun text => ?_, fun text => ?_⟩
  · rw [mem_other action (by decide), mem_optional guard fun _ => not_mem_empty]
  · refine mem_optional action fun text listed => ?_
    rw [mem_other guard (by decide)] at listed
    exact not_mem_empty listed

/-- The attribute of the invariant of a location. -/
def invariantAttributes (env : Env) (ctx : ContextPrefix) (q : Instance) : Option Expr → Res Attributes
  | none => .ok ∅
  | some invariant => do
      let text ← translateExpression env q invariant ctx
      .ok ((∅ : Attributes).insert "invariant" text)

theorem stateAttributes_eq (s : Utap.State) : stateAttributes env ctx q s =
    invariantAttributes env ctx q s.invariant >>= fun attr =>
      let attr := if (env.getType s.uid).is (.pre .committed) then attr.insert "committed" "" else attr
      let attr := if (env.getType s.uid).is (.pre .urgent) then attr.insert "urgent" "" else attr
      .ok (if s.uid = q.templ.init then attr.insert "initial" "" else attr) := by
  unfold stateAttributes
  cases s.invariant with
  | none => rfl
  | some invariant =>
      unfold invariantAttributes
      dsimp only
      cases translateExpression env (some q) invariant ctx <;> rfl

/-- The attribute with the text of the invariant, if there is one. -/
inductive InvariantListed (env : Env) (ctx : ContextPrefix) (q : Instance) (attr : Attributes) :
    Option Expr → Prop where
  | absent (unlisted : ∀ text, ("invariant", text) ∉ attr.toList) : InvariantListed env ctx q attr none
  | given {e : Expr} {text : String} (printed : translateExpression env q e ctx = .ok text)
      (listed : ∀ text', ("invariant", text') ∈ attr.toList ↔ text' = text) :
      InvariantListed env ctx q attr (some e)

theorem listed_of_invariant {invariant : Option Expr}
    (translated : invariantAttributes env ctx q invariant = .ok attr) :
    InvariantListed env ctx q attr invariant ∧
      ∀ key text, key ≠ "invariant" → (key, text) ∉ attr.toList := by
  cases invariant with
  | none =>
      cases translated
      exact ⟨.absent fun _ => not_mem_empty, fun _ _ _ => not_mem_empty⟩
  | some e =>
      obtain ⟨text, printed, translated⟩ := Res.bind_eq_ok.mp translated
      cases translated
      refine ⟨.given printed fun text' => ?_, fun key text' differ => ?_⟩
      · rw [mem_insert_attributes, if_pos rfl]
      · rw [mem_insert_attributes, if_neg (Ne.symm differ)]
        exact not_mem_empty

theorem InvariantListed.congr {attr' : Attributes} {invariant : Option Expr}
    (listed : InvariantListed env ctx q attr invariant)
    (same : ∀ text, ("invariant", text) ∈ attr'.toList ↔ ("invariant", text) ∈ attr.toList) :
    InvariantListed env ctx q attr' invariant := by
  cases listed with
  | absent unlisted => exact .absent fun text inside => unlisted text ((same text).mp inside)
  | given printed one => exact .given printed fun text' => (same text').trans (one text')

theorem exists_optional {c : Prop} [Decidable c] {key : String} (value : String)
    (absent : ∀ text, (key, text) ∉ attr.toList) :
    (∃ text, (key, text) ∈ (if c then attr.insert key value else attr).toList) ↔ c := by
  simp only [mem_optional value absent]
  exact ⟨fun ⟨_, holds, _⟩ => holds, fun holds => ⟨value, holds, rfl⟩⟩

/-- The attributes of a location. -/
theorem attributes_of_state {s : Utap.State} (translated : stateAttributes env ctx q s = .ok attr) :
    InvariantListed env ctx q attr s.invariant ∧
    ((∃ text, ("committed", text) ∈ attr.toList) ↔ (env.getType s.uid).is (.pre .committed) = true) ∧
    ((∃ text, ("urgent", text) ∈ attr.toList) ↔ (env.getType s.uid).is (.pre .urgent) = true) ∧
    ((∃ text, ("initial", text) ∈ attr.toList) ↔ s.uid = q.templ.init) := by
  rw [stateAttributes_eq] at translated
  obtain ⟨base, first, translated⟩ := Res.bind_eq_ok.mp translated
  cases translated
  obtain ⟨invariant, others⟩ := listed_of_invariant first
  refine ⟨invariant.congr fun text => ?_, ?_, ?_, ?_⟩
  · rw [mem_other "" (by decide), mem_other "" (by decide), mem_other "" (by decide)]
  · simp only [mem_other "" (show "initial" ≠ "committed" by decide),
      mem_other "" (show "urgent" ≠ "committed" by decide)]
    exact exists_optional "" fun text => others _ text (by decide)
  · simp only [mem_other "" (show "initial" ≠ "urgent" by decide)]
    refine exists_optional "" fun text listed => ?_
    rw [mem_other "" (by decide)] at listed
    exact others _ text (by decide) listed
  · refine exists_optional "" fun text listed => ?_
    rw [mem_other "" (by decide), mem_other "" (by decide)] at listed
    exact others _ text (by decide) listed

end

/-! ## What is asked of a model -/

/-- The expression can be rendered and has a meaning. -/
structure Readable {V : Type} (A : Arithmetic V) (env : Env) (p : Option Instance) (scope : List Symbol)
    (e : Expr) : Prop where
  checked : Checked env p scope e
  faithful : Faithful env p e
  means : ∃ f : State V → Option V, Means A p e (.value f)

/-- The update can be rendered and has a meaning. -/
structure Performable {V : Type} (A : Arithmetic V) (env : Env) (p : Option Instance) (scope : List Symbol)
    (e : Expr) : Prop where
  checked : Checked env p scope e
  faithful : FaithfulUpdate env p e
  executes : ∃ F : State V → Option (State V), Executes A env p e F

/-- The edge emits or receives a cell of a channel, or nothing; no index is misread. -/
def Synchronisable (env : Env) (q : Instance) (e : Edge) : Prop :=
  ∀ kind channel, e.sync = some (.sync kind channel) →
    kind ≠ .csp ∧ ExactIndices env (some q) channel ∧ ∃ c indices, Denotes env (some q) channel c indices

/-- The labels of a model can be rendered. -/
structure Renderable {V : Type} (A : Arithmetic V) (env : Env) (tas : TimedAutomataSystem) : Prop where
  names : ∀ o p, Lives env tas o p → ∀ c ∈ scopeOf tas p, IsName (symbolName env (prefixOf env p o.2) c)
  guards : ∀ o p, Lives env tas o p → ∀ e ∈ p.templ.edges, ∀ q,
    Chooses env e.select (instanceWith p o.2) q → Readable A env (some q) (scopeOf tas p) e.guard
  updates : ∀ o p, Lives env tas o p → ∀ e ∈ p.templ.edges, ∀ q,
    Chooses env e.select (instanceWith p o.2) q → Performable A env (some q) (scopeOf tas p) e.assign
  channels : ∀ o p, Lives env tas o p → ∀ e ∈ p.templ.edges, ∀ q,
    Chooses env e.select (instanceWith p o.2) q → Synchronisable env q e
  invariants : ∀ o p, Lives env tas o p → ∀ s ∈ p.templ.states, ∀ e, s.invariant = some e →
    Readable A env (some (instanceWith p o.2)) (scopeOf tas p) e

/-- The promises of the parser library, and what is asked of a model. -/
structure Tractable {V : Type} (A : Arithmetic V) (env : Env) (tas : TimedAutomataSystem) : Prop where
  scopes : Scoped env tas
  apart : NamesUnconfused env tas
  wellFormed : WellFormed env tas.processes
  ranges : RangesKnown env tas
  typed : DeclarationsTyped env tas
  layered : BindingsLayered A env tas
  renderable : Renderable A env tas
  /-- The name of the process that never moves is free. -/
  reserved : ∀ p ∈ tas.processes, env.getName p.uid ≠ stuckProcess

/-! ## Conditions and statements -/

section

variable {V : Type} {A : Arithmetic V} {env : Env} {q : Instance} {ctx : ContextPrefix}
  {scope : List Symbol} {e : Expr} {attr : List (String × String)} {text : String}
  (names : ∀ c ∈ scope, IsName (symbolName env ctx c))

include names

/-- The condition of an attribute holds where the expression it was printed from
holds; a text that is left out is true. -/
theorem condition_iff {key : String} {left : Prop} (readable : Readable A env (some q) scope e)
    (printed : translateExpression env (some q) e ctx = .ok text)
    (listed : ∀ text', (key, text') ∈ attr ↔ left ∧ text' = text) (default : ¬ left → text = "1") :
    (∃ P : Valuation V → Prop, Condition A key attr P) ∧ ∀ P, Condition A key attr P → ∀ f,
      Means A (some q) e (.value f) → ∀ σ τ, GivesConstants A env (some q) σ →
        Carries env (some q) ctx scope σ τ → (Holds A (f σ) ↔ P τ) := by
  obtain ⟨tree, operand, renders⟩ := operand_of_faithful names readable.faithful readable.checked printed
  have reads := operand.expression.reads
  constructor
  · by_cases written : left
    · exact ⟨_, .given ((listed text).mpr ⟨written, rfl⟩) reads⟩
    · exact ⟨_, .absent fun text' inside => written ((listed text').mp inside).1⟩
  · intro P condition f means σ τ constants carries
    have value := renders V A f means σ τ constants carries
    cases condition with
    | given inside reads' =>
        obtain ⟨_, rfl⟩ := (listed _).mp inside
        rw [reads'.unique reads]
        exact iff_of_eq (congrArg (Holds A) value.symm)
    | absent none =>
        have one := default fun written => none text ((listed text).mpr ⟨written, rfl⟩)
        subst one
        rw [reads.unique (operand_number 1).expression.reads, value_numberTree] at value
        rw [← value]
        refine iff_true_intro ⟨_, rfl, ?_⟩
        rw [A.isTrue_ofInt]
        rfl

/-- The statements of the attribute `do` perform the update. -/
theorem does_iff (apart : VariablesApart env ctx scope)
    (performable : Performable A env (some q) scope e)
    (printed : translateAssignment env (some q) e ctx = .ok text)
    (listed : ∀ text', ("do", text') ∈ attr ↔ text ≠ doNop ∧ text' = text) :
    (∃ G : Valuation V → Option (Valuation V), Does A attr G) ∧ ∃ ss,
      (∀ s ∈ ss, Stored env ctx scope s) ∧ Performs env (some q) ctx scope e ss ∧
        ∀ G, Does A attr G → G = runAll A ss := by
  obtain ⟨ss, update, stored, performs⟩ :=
    update_of_faithful names apart performable.checked performable.faithful printed
  have reads := update.reads
  constructor
  · by_cases written : text = doNop
    · exact ⟨_, .absent fun text' inside => ((listed text').mp inside).1 written⟩
    · exact ⟨_, .given ((listed text).mpr ⟨written, rfl⟩) reads⟩
  · refine ⟨ss, stored, performs, fun G does => ?_⟩
    cases does with
    | given inside reads' =>
        obtain ⟨_, rfl⟩ := (listed _).mp inside
        rw [reads'.unique reads]
    | absent none =>
        have nop : text = doNop := by
          by_contra written
          exact none text ((listed text).mpr ⟨written, rfl⟩)
        subst nop
        rw [reads.unique update_nop.reads]
        rfl

end

/-! ## A process that hands over -/

/-- `chan c; int[0,5] n;`, a process `P` with a clock `x` and a process `Q`. -/
def relayEnv : Env :=
  envOfSymbols [⟨"t(0)", .prim .clock, false, some ⟨none⟩⟩, ⟨"c", .prim .channel, false, some ⟨none⟩⟩,
    ⟨"n", indexUpTo 5, false, some ⟨none⟩⟩, ⟨"P", .prim .unknown, false, none⟩,
    ⟨"Q", .prim .unknown, false, none⟩, ⟨"x", .prim .clock, true, some ⟨none⟩⟩,
    ⟨"A", .prim .location, true, none⟩, ⟨"B", .prim .location, true, none⟩,
    ⟨"C", .prim .location, true, none⟩, ⟨"D", .prim .location, true, none⟩]

/-- The clock `x` compared with a number. -/
def relayBound (k : BinaryKind) (bound : Int) : Expr :=
  .binary k (.identifier 5 (.prim .clock)) (.constant bound (.prim .int)) (.prim .bool)

/-- `n = 1`. -/
def relayUpdate : Expr :=
  .binary .assign (.identifier 2 (indexUpTo 5)) (.constant 1 (.prim .int)) (indexUpTo 5)

def relaySync (kind : SyncKind) : Expr := .sync kind (.identifier 1 (.prim .channel))

/-- The edge of `P`, with `x >= 1`, `c!` and `n = 1`. -/
def relaySend : Edge :=
  { actname := "", src := some 6, dst := some 7, select := [], guard := relayBound .ge 1
    sync := some (relaySync .bang), assign := relayUpdate }

/-- The edge of `Q`, with `c?`. -/
def relayReceive : Edge :=
  { actname := "", src := some 8, dst := some 9, select := [], guard := .constant 1 (.prim .bool)
    sync := some (relaySync .que), assign := .constant 1 (.prim .int) }

/-- `P`, which stays in `A` while `x <= 2`. -/
def relaySender : Instance :=
  { uid := 3, parameters := [], mapping := ∅, unbound := 0
    templ := { vars := [5], iodecl := [], functions := [], init := 6, states := [⟨6, some (relayBound .le 2)⟩, ⟨7, none⟩]
               edges := [relaySend] } }

def relayReceiver : Instance :=
  { uid := 4, parameters := [], mapping := ∅, unbound := 0
    templ := { vars := [], iodecl := [], functions := [], init := 8, states := [⟨8, none⟩, ⟨9, none⟩]
               edges := [relayReceive] } }

def relayModel : TimedAutomataSystem := ⟨⟨[0, 1, 2], [], []⟩, [relaySender, relayReceiver]⟩

theorem lives_relay {o : Owner} {p : Instance} (lives : Lives relayEnv relayModel o p) :
    o = (3, []) ∧ p = relaySender ∨ o = (4, []) ∧ p = relayReceiver := by
  obtain ⟨uid, values⟩ := o
  obtain ⟨listed, rfl, inRanges⟩ := lives
  rcases List.mem_pair.mp listed with rfl | rfl
  · cases inRanges
    exact .inl ⟨rfl, rfl⟩
  · cases inRanges
    exact .inr ⟨rfl, rfl⟩

theorem mapped_relay {p : Instance} (listed : p ∈ relayModel.processes) (s : Symbol) :
    mapped? (some (instanceWith p [])) s = none := by
  rcases List.mem_pair.mp listed with rfl | rfl
  · exact Std.TreeMap.getElem?_emptyc
  · exact Std.TreeMap.getElem?_emptyc

/-- The choices of the relay. -/
theorem choice_relay {o : Owner} {p q : Instance} {e : Edge} (lives : Lives relayEnv relayModel o p)
    (member : e ∈ p.templ.edges) (chooses : Chooses relayEnv e.select (instanceWith p o.2) q) :
    (o = (3, []) ∧ p = relaySender ∧ e = relaySend ∧ q = instanceWith relaySender []) ∨
      o = (4, []) ∧ p = relayReceiver ∧ e = relayReceive ∧ q = instanceWith relayReceiver [] := by
  rcases lives_relay lives with ⟨rfl, rfl⟩ | ⟨rfl, rfl⟩
  · cases List.mem_singleton.mp member
    cases chooses
    exact .inl ⟨rfl, rfl, rfl, rfl⟩
  · cases List.mem_singleton.mp member
    cases chooses
    exact .inr ⟨rfl, rfl, rfl, rfl⟩

theorem scoped_relay : Scoped relayEnv relayModel := by
  constructor
  · constructor
    · intro p listed p' listed' same
      rcases List.mem_pair.mp listed with rfl | rfl <;>
        rcases List.mem_pair.mp listed' with rfl | rfl <;>
          first | rfl | exact absurd same (by decide)
    · decide
  · decide
  · decide
  · decide
  · decide
  · intro p listed e member kind channel sync
    rcases List.mem_pair.mp listed with rfl | rfl <;>
      cases List.mem_singleton.mp member <;> cases sync <;> decide
  · decide

theorem scope_relay {p : Instance} (listed : p ∈ relayModel.processes) {c : Symbol}
    (inside : c ∈ scopeOf relayModel p) : c = 1 ∨ c = 2 ∨ c = 5 ∧ p.uid = 3 := by
  rcases List.mem_pair.mp listed with rfl | rfl
  · exact (by decide : ∀ c ∈ scopeOf relayModel relaySender, c = 1 ∨ c = 2 ∨ c = 5 ∧ _) c inside
  · exact (by decide : ∀ c ∈ scopeOf relayModel relayReceiver, c = 1 ∨ c = 2 ∨ c = 5 ∧ _) c inside

theorem oneDim_relay {p : Instance} (listed : p ∈ relayModel.processes) {c : Symbol}
    (inside : c ∈ scopeOf relayModel p) : oneDim relayEnv c = false := by
  rcases scope_relay listed inside with rfl | rfl | ⟨rfl, _⟩ <;> rfl

theorem checked_relay {p : Instance} (listed : p ∈ relayModel.processes) {s : Symbol}
    (inside : s ∈ scopeOf relayModel p) :
    Checked relayEnv (some (instanceWith p [])) (scopeOf relayModel p)
      (.identifier s (relayEnv.getType s)) :=
  .ofDeclared (mapped_relay listed) rfl inside

theorem readable_relay {p : Instance} (listed : p ∈ relayModel.processes)
    (inside : 5 ∈ scopeOf relayModel p) {k : BinaryKind} (operator : isOperator k = true)
    {op : String} (text : binaryText k = some op) (bound : Int) :
    Readable integers relayEnv (some (instanceWith p [])) (scopeOf relayModel p) (relayBound k bound) where
  checked := by
    refine .ofBinary ?_ (checked_relay listed inside) (.ofConstant (mapped_relay listed) bound _)
    rintro rfl
    cases operator
  faithful := .binary text (.declared (mapped_relay listed 5) rfl) .constant
  means := ⟨_, .binary operator (.read (.declared (mapped_relay listed 5))) (.integer rfl)⟩

theorem readable_true {p : Instance} (listed : p ∈ relayModel.processes) :
    Readable integers relayEnv (some (instanceWith p [])) (scopeOf relayModel p)
      (.constant 1 (.prim .bool)) where
  checked := .ofConstant (mapped_relay listed) 1 _
  faithful := .constant
  means := ⟨_, .boolean rfl rfl⟩

theorem performable_relay :
    Performable integers relayEnv (some (instanceWith relaySender [])) (scopeOf relayModel relaySender)
      relayUpdate where
  checked := .ofBinary (by decide) (checked_relay List.mem_cons_self (by decide))
    (.ofConstant (mapped_relay List.mem_cons_self) 1 _)
  faithful := .assign (.cell (.declared (mapped_relay List.mem_cons_self 2) rfl) (by simp)
    (.declared (mapped_relay List.mem_cons_self 2)) rfl) .constant fun other => (by cases other)
  executes := ⟨_, .assign (.declared (mapped_relay List.mem_cons_self 2)) (.integer rfl)⟩

theorem tractable_relay : Tractable integers relayEnv relayModel where
  scopes := scoped_relay
  apart := by constructor <;> decide
  wellFormed := by
    constructor
    · decide
    · intro p listed e member s ends
      rcases List.mem_pair.mp listed with rfl | rfl <;> cases List.mem_singleton.mp member <;>
        rcases ends with same | same <;> cases same <;> decide
  ranges := by
    constructor
    · decide
    · intro p listed s opened
      rcases List.mem_pair.mp listed with rfl | rfl <;> cases opened
    · intro o p lives e member
      rcases lives_relay lives with ⟨rfl, rfl⟩ | ⟨rfl, rfl⟩ <;> cases List.mem_singleton.mp member <;> trivial
  typed := by
    constructor
    · intro p listed c inside
      rcases scope_relay listed inside with rfl | rfl | ⟨rfl, _⟩
      · exact .inr (.inr .channel)
      · exact .inl .bounded
      · exact .inr (.inl .clock)
    · intro o p lives c inside x bound
      rcases scope_relay lives.listed inside with rfl | rfl | ⟨rfl, _⟩
      · cases bound
      · rcases List.mem_pair.mp bound with rfl | rfl
        · exact knowable_constant ⟨by decide, by decide⟩
        · exact knowable_constant ⟨by decide, by decide⟩
      · cases bound
  layered := by
    have oneDims {o : Owner} {p : Instance} (lives : Lives relayEnv relayModel o p) {c : Symbol}
        (inside : c ∈ scopeOf relayModel p) {P : Prop} (one : oneDim relayEnv c = true) : P := by
      rw [oneDim_relay lives.listed inside] at one
      cases one
    constructor
    · exact fun o p lives c inside one => oneDims lives (mem_scopeOf.mpr (.inl inside)) one
    · exact fun o p lives e _ q _ c inside one => oneDims lives inside one
    · intro o p lives e member q chooses σ constants
      rcases choice_relay lives member chooses with ⟨rfl, rfl, rfl, rfl⟩ | ⟨rfl, rfl, rfl, rfl⟩
      · exact constants
      · exact constants
  renderable := by
    constructor
    · intro o p lives c inside
      rcases lives_relay lives with ⟨rfl, rfl⟩ | ⟨rfl, rfl⟩ <;>
        rcases scope_relay lives.listed inside with rfl | rfl | ⟨rfl, uid⟩
      · exact ⟨⟨'c', [], rfl, rfl⟩, rfl, by decide⟩
      · exact ⟨⟨'n', [], rfl, rfl⟩, rfl, by decide⟩
      · exact ⟨⟨'P', ['_', 'x'], rfl, rfl⟩, rfl, by decide⟩
      · exact ⟨⟨'c', [], rfl, rfl⟩, rfl, by decide⟩
      · exact ⟨⟨'n', [], rfl, rfl⟩, rfl, by decide⟩
      · exact absurd uid (by decide)
    · intro o p lives e member q chooses
      rcases choice_relay lives member chooses with ⟨rfl, rfl, rfl, rfl⟩ | ⟨rfl, rfl, rfl, rfl⟩
      · exact readable_relay lives.listed (by decide) rfl rfl 1
      · exact readable_true lives.listed
    · intro o p lives e member q chooses
      rcases choice_relay lives member chooses with ⟨rfl, rfl, rfl, rfl⟩ | ⟨rfl, rfl, rfl, rfl⟩
      · exact performable_relay
      · exact ⟨.ofConstant (mapped_relay lives.listed) 1 _, .constant, _, .skip⟩
    · intro o p lives e member q chooses kind channel sync
      rcases choice_relay lives member chooses with ⟨rfl, rfl, rfl, rfl⟩ | ⟨rfl, rfl, rfl, rfl⟩
      · cases sync
        have unbound := mapped_relay lives.listed 1
        exact ⟨by decide, .declared unbound, _, _, .declared unbound⟩
      · cases sync
        have unbound := mapped_relay lives.listed 1
        exact ⟨by decide, .declared unbound, _, _, .declared unbound⟩
    · intro o p lives s state e invariant
      rcases lives_relay lives with ⟨rfl, rfl⟩ | ⟨rfl, rfl⟩
      · rcases List.mem_pair.mp state with rfl | rfl
        · cases invariant
          exact readable_relay lives.listed (by decide) rfl rfl 2
        · cases invariant
      · rcases List.mem_pair.mp state with rfl | rfl <;> cases invariant
  reserved := by decide

end Utot
