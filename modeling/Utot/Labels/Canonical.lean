import Utot.Labels.Channels
import Utot.Labels.Uses

/-!
# Labels identify channel cells

Synchronisation is decided by equality of base labels.  In a model whose
declared names `_` does not confuse, two labels are equal exactly if one
channel cell is found for both, and the labels of IO sections are those of the
edges.  The cell that is found is the one the synchronisation denotes, unless
an index is misread.
-/

namespace Utot

open Utap Uppaal Library

/-! ## Scopes -/

/-- What the parser promises about the symbols of a system. -/
structure Scoped (env : Env) (tas : TimedAutomataSystem) : Prop extends DistinctSymbols tas where
  globals : ∀ c ∈ tas.globals.vars, env.hasParent c = false
  locals : ∀ p ∈ tas.processes, ∀ c ∈ p.templ.vars, env.hasParent c = true
  /-- The parameters behind the open ones are bound. -/
  closed : ∀ p ∈ tas.processes, ∀ s ∈ p.parameters.drop p.unbound, s ∈ p.mapping
  /-- The arguments of an instantiation are written in the global scope. -/
  arguments : ∀ p ∈ tas.processes, ∀ kv ∈ p.mapping.toList, ∀ root ∈ kv.2.getSymbol?,
    root ∈ tas.globals.vars ∨ root ∈ p.parameters
  edges : ∀ p ∈ tas.processes, ∀ e ∈ p.templ.edges, ∀ kind channel,
    e.sync = some (.sync kind channel) → ∀ root ∈ channel.getSymbol?,
      root ∈ tas.globals.vars ∨ root ∈ p.templ.vars ∨ root ∈ p.parameters
  sections : ∀ d ∈ tas.globals.iodecl, ∀ e ∈ d.csp,
    isChannelExpr e = true ∧ ∀ root ∈ e.getSymbol?, root ∈ tas.globals.vars

/-! ## Synchronisations -/

/-- The cell a channel is for an instance of a process. -/
def cellOf (env : Env) (p : Instance) (values : List Int) (c : Symbol) (indices : List Int) : Cell :=
  ⟨if env.hasParent c then some (p.uid, values) else none, c, indices⟩

/-- A synchronisation of an edge, translated with the base label `s`, denotes the
channel cell; the other one is found for it, where operands of initialisers stand for
cells. -/
inductive Synchronised (env : Env) (tas : TimedAutomataSystem) : String → Cell → Cell → Prop where
  | edge {p q : Instance} {values : List Int} {e : Edge} {kind : SyncKind} {channel : Expr}
      {written c : Symbol} {indices found : List Int} {s : String} (listed : p ∈ tas.processes)
      (inst : InstanceOf env p (prefixOf env p values) (instanceWith p values))
      (count : values.length = (openParameters p).length)
      (visited : VisitIn env (instanceWith p values) q e) (sync : e.sync = some (.sync kind channel))
      (symbol : channel.getSymbol? = some written) (denotes : Denotes env (some q) channel c indices)
      (finds : Finds env (some q) channel c found)
      (labelled : baseLabel env q written (.sync kind channel) (prefixOf env p values) = .ok s) :
      Synchronised env tas s (cellOf env p values c indices) (cellOf env p values c found)

section

variable {env : Env} {tas : TimedAutomataSystem}

theorem resolves_of_denotes {q : Instance} {e : Expr} {c : Symbol} {indices : List Int}
    (denotes : Denotes env (some q) e c indices) : Resolves env q e c := by
  induction denotes with
  | declared unbound => exact .declared unbound
  | parameter bound _ ih => exact .parameter bound ih
  | cell _ _ ih => exact .cell ih

/-- The symbol written in a channel expression is the channel behind it, or bound. -/
theorem Resolves.root {q : Instance} {e : Expr} {c : Symbol} (resolves : Resolves env q e c) :
    ∃ root, e.getSymbol? = some root ∧ (q.mapping[root]? = none ∧ c = root ∨
      ∃ argument, q.mapping[root]? = some argument ∧ Resolves env q argument c) := by
  induction resolves with
  | @declared s t unmapped => exact ⟨s, rfl, .inl ⟨unmapped, rfl⟩⟩
  | @parameter s c t argument mapped later => exact ⟨s, rfl, .inr ⟨argument, mapped, later⟩⟩
  | cell _ ih => exact ih
  | sync _ ih => exact ih

theorem mapped_of_mem {m : Mapping} {s : Symbol} (inside : s ∈ m) : m[s]? ≠ none := by
  intro unmapped
  have found := Std.TreeMap.isSome_getElem?_iff_mem.mpr inside
  rw [unmapped] at found
  cases found

/-- The channel behind an argument is global. -/
theorem global_of_argument (scopes : Scoped env tas) {p q : Instance} (listed : p ∈ tas.processes)
    (refines : Refines p.mapping q.mapping) (bound : ∀ s ∈ p.parameters, s ∈ q.mapping) {s : Symbol}
    {argument : Expr} {c : Symbol} (mapped : q.mapping[s]? = some argument)
    (resolves : Resolves env q argument c) : c ∈ tas.globals.vars := by
  -- what is not a constant was written as an argument of the process
  have fromProcess {s : Symbol} {e : Expr} {c : Symbol} (mapped : q.mapping[s]? = some e)
      (resolves : Resolves env q e c) :
      ∀ root ∈ e.getSymbol?, root ∈ tas.globals.vars ∨ root ∈ p.parameters := by
    rcases refines s with same | ⟨i, constant⟩
    · rw [same] at mapped
      exact scopes.arguments p listed (s, e) (Std.TreeMap.mem_toList_iff_getElem?_eq_some.mpr mapped)
    · rw [constant] at mapped
      cases mapped
      cases resolves
  have written := fromProcess mapped resolves
  clear mapped
  induction resolves with
  | @declared s t unmapped =>
      rcases written s rfl with global | parameter
      · exact global
      · exact absurd unmapped (mapped_of_mem (bound s parameter))
  | @parameter s c t argument mapped later ih => exact ih (fromProcess mapped later)
  | cell _ ih => exact ih written
  | sync _ ih => exact ih written

/-- The channel behind a synchronisation is global, or it is written on the edge
and declared in the template. -/
theorem scope_of_resolves (scopes : Scoped env tas) {p q : Instance} (listed : p ∈ tas.processes)
    {values : List Int} (count : values.length = (openParameters p).length) {e : Edge}
    (visited : VisitIn env (instanceWith p values) q e) {kind : SyncKind} {channel : Expr}
    (sync : e.sync = some (.sync kind channel)) {written c : Symbol}
    (symbol : channel.getSymbol? = some written) (resolves : Resolves env q channel c) :
    c ∈ tas.globals.vars ∨ c = written ∧ c ∈ p.templ.vars := by
  obtain ⟨member, selects⟩ := visited
  have refines : Refines p.mapping q.mapping :=
    refines_selects selects (refines_instanceWith p values)
  have bound : ∀ s ∈ p.parameters, s ∈ q.mapping := fun s parameter =>
    mem_selects selects (mem_instanceWith count (scopes.closed p listed) parameter)
  obtain ⟨root, isRoot, ⟨unmapped, same⟩ | ⟨argument, mapped, later⟩⟩ := resolves.root
  · rw [symbol] at isRoot
    cases isRoot
    subst same
    rcases scopes.edges p listed e member kind channel sync c symbol with
      global | inTemplate | parameter
    · exact .inl global
    · exact .inr ⟨rfl, inTemplate⟩
    · exact absurd unmapped (mapped_of_mem (bound c parameter))
  · exact .inl (global_of_argument scopes listed refines bound mapped later)

/-- The base label is computed by `translate_event_expression`. -/
theorem baseLabel_eq_ok {q : Instance} {written : Symbol} {kind : SyncKind} {channel : Expr}
    {ctx : ContextPrefix} {s : String}
    (labelled : baseLabel env q written (.sync kind channel) ctx = .ok s) :
    ∃ depth, translateEventAux env depth (some q) channel
      (if env.hasParent written then ctx else []) = .ok s := by
  unfold baseLabel translateExpression at labelled
  cases stack : env.stack with
  | zero =>
      rw [stack] at labelled
      cases labelled
  | succ depth =>
      rw [stack] at labelled
      cases depth with
      | zero => cases labelled
      | succ depth => exact ⟨depth, labelled⟩

theorem symbolName_global (scopes : Scoped env tas) {c : Symbol} (global : c ∈ tas.globals.vars)
    (ctx : ContextPrefix) : symbolName env ctx c = addPrefix [] (env.getName c) := by
  rw [symbolName, scopes.globals c global]
  rfl

/-- What `s_build_edge_label` prints for a channel in scope names its cell. -/
theorem named_in_scope (scopes : Scoped env tas) {p : Instance} (listed : p ∈ tas.processes)
    {values : List Int} (count : values.length = (openParameters p).length) {written c : Symbol}
    (scope : c ∈ tas.globals.vars ∨ c = written ∧ c ∈ p.templ.vars) (indices : List Int) :
    Named env tas (cellOf env p values c indices) (cellName (symbolName env
      (if env.hasParent written then prefixOf env p values else []) c) indices.reverse) := by
  rcases scope with global | ⟨rfl, inTemplate⟩
  · rw [symbolName_global scopes global, cellOf, scopes.globals c global]
    exact .inGlobals global indices
  · rw [symbolName, cellOf, scopes.locals p listed c inTemplate]
    exact .inInstance listed count inTemplate indices

theorem resolves_of_finds {q : Instance} {e : Expr} {c : Symbol} {indices : List Int}
    (finds : Finds env (some q) e c indices) : Resolves env q e c := by
  induction finds with
  | declared unbound => exact .declared unbound
  | parameter bound _ ih => exact .parameter bound ih
  | cell _ _ ih => exact .cell ih

/-- Every synchronisation a translation labels is one of these, provided its
channel expression denotes a cell. -/
theorem synchronised_of_visit {ctx : ContextPrefix} {q : Instance} {e : Edge} {kind : SyncKind}
    {channel : Expr} {written c : Symbol} {indices : List Int} {s : String}
    (visit : Visit env tas.processes ctx q e) (sync : e.sync = some (.sync kind channel))
    (symbol : channel.getSymbol? = some written) (denotes : Denotes env (some q) channel c indices)
    (checked : CheckedIndices env (some q) channel)
    (labelled : baseLabel env q written (.sync kind channel) ctx = .ok s) :
    ∃ p ∈ tas.processes, ∃ values found, Finds env (some q) channel c found ∧
      Synchronised env tas s (cellOf env p values c indices) (cellOf env p values c found) := by
  obtain ⟨p, listed, r, inst, visited⟩ := visit
  obtain ⟨values, count, rfl, rfl⟩ := instanceOf_values inst
  obtain ⟨depth, printed⟩ := baseLabel_eq_ok labelled
  obtain ⟨c', found, name, _⟩ := translateEventAux_channelName printed
  have finds := checked.finds name
  obtain rfl := (resolves_of_denotes denotes).unique (resolves_of_finds finds)
  exact ⟨p, listed, values, found, finds, .edge listed inst count visited sync symbol denotes finds labelled⟩

/-- Where no index is misread, the cell is the one the synchronisation denotes. -/
theorem synchronised_of_exact {p q : Instance} {values : List Int} {e : Edge} {kind : SyncKind} {channel : Expr}
    {written c : Symbol} {indices : List Int} {s : String} (listed : p ∈ tas.processes)
    (inst : InstanceOf env p (prefixOf env p values) (instanceWith p values))
    (count : values.length = (openParameters p).length)
    (visited : VisitIn env (instanceWith p values) q e) (sync : e.sync = some (.sync kind channel))
    (symbol : channel.getSymbol? = some written) (denotes : Denotes env (some q) channel c indices)
    (exact : ExactIndices env (some q) channel)
    (labelled : baseLabel env q written (.sync kind channel) (prefixOf env p values) = .ok s) :
    Synchronised env tas s (cellOf env p values c indices) (cellOf env p values c indices) :=
  .edge listed inst count visited sync symbol denotes (exact.finds denotes) labelled

/-- The base label of a synchronisation is the name of the cell that is found. -/
theorem Synchronised.named (scopes : Scoped env tas) {s : String} {cell found : Cell}
    (synchronised : Synchronised env tas s cell found) : Named env tas found s := by
  cases synchronised with
  | @edge p q values e kind channel written c indices _ _ listed inst count visited sync symbol denotes
      finds labelled =>
      obtain ⟨depth, printed⟩ := baseLabel_eq_ok labelled
      rw [translateEventAux_name finds printed]
      exact named_in_scope scopes listed count (scope_of_resolves scopes listed count visited sync
        symbol (resolves_of_denotes denotes)) _

theorem Synchronised.owner_eq {s : String} {cell found : Cell}
    (synchronised : Synchronised env tas s cell found) : found.owner = cell.owner := by
  cases synchronised
  rfl

theorem root_of_finds {e : Expr} {c : Symbol} {indices : List Int} (channel : isChannelExpr e = true)
    (finds : Finds env none e c indices) : e.getSymbol? = some c := by
  induction finds with
  | declared => rfl
  | parameter bound => cases bound
  | cell _ _ ih => exact ih ((Bool.and_eq_true _ _).mp channel).1

/-- The label of an event in an IO section is the name of the cell that is found. -/
theorem section_named (scopes : Scoped env tas) {d : IoDecl} (listed : d ∈ tas.globals.iodecl)
    {e : Expr} (member : e ∈ d.csp) {s : String} (labelled : translateExpression env none e [] = .ok s)
    {c : Symbol} {found : List Int} (finds : Finds env none e c found) :
    Named env tas ⟨none, c, found⟩ s := by
  obtain ⟨channel, declared⟩ := scopes.sections d listed e member
  have global := declared c (root_of_finds channel finds)
  rw [translateAux_name channel finds labelled, symbolName_global scopes global]
  exact .inGlobals global found

end

/-- The type of an index from 0. -/
def indexUpTo (upper : Int) : Ty :=
  .range (.prim .int) (.constant 0 (.prim .int)) (.constant upper (.prim .int))

def rowType : Ty := .array (.prim .channel) (indexUpTo 2)

/-- `chan m[2][3]`, the processes `P` and `Q`, and a template with a parameter
`chan &r[3]`, an open parameter `i`, a select variable `k` and a channel `d`. -/
def rowEnv : Env :=
  envOfSymbols [⟨"t(0)", .prim .clock, false, some ⟨none⟩⟩,
    ⟨"m", .array rowType (indexUpTo 1), false, some ⟨none⟩⟩, ⟨"P", .prim .unknown, false, none⟩,
    ⟨"Q", .prim .unknown, false, none⟩, ⟨"r", .ref rowType, false, none⟩,
    ⟨"i", .pre .constant (indexUpTo 1), false, none⟩,
    ⟨"k", .pre .constant (indexUpTo 2), true, none⟩, ⟨"d", .prim .channel, true, some ⟨none⟩⟩,
    ⟨"A", .prim .location, true, none⟩]

/-- `m[row]`. -/
def rowOf (row : Int) : Expr :=
  .binary .array (.identifier 1 (.array rowType (indexUpTo 1))) (.constant row (.prim .int)) rowType

/-- An edge with a synchronisation. -/
def rowEdge (select : List Symbol) (channel : Expr) : Edge :=
  { actname := "", src := some 8, dst := some 8, select, guard := .constant 1 (.prim .bool)
    sync := some (.sync .csp channel), assign := .constant 1 (.prim .int) }

/-- A process whose parameter `r` is bound to a row. -/
def rowProcess (uid : Symbol) (row : Int) : Instance :=
  { uid, parameters := [5, 4], mapping := (∅ : Mapping).insert 4 (rowOf row), unbound := 1
    templ := { vars := [7], iodecl := [], functions := [], init := 8, states := [⟨8, none⟩]
               edges := [rowEdge [6] (.binary .array (.identifier 4 (.ref rowType))
                   (.identifier 6 (.pre .constant (indexUpTo 2))) (.prim .channel)),
                 rowEdge [] (.identifier 7 (.prim .channel))] } }

/-- The IO section of `P` lists `m[1][2]`. -/
def rowModel : TimedAutomataSystem :=
  ⟨⟨[0, 1], [⟨"P", [.binary .array (rowOf 1) (.constant 2 (.prim .int)) (.prim .channel)]⟩], []⟩,
    [rowProcess 2 1, rowProcess 3 0]⟩

theorem scoped_rowModel : Scoped rowEnv rowModel := by
  constructor
  · constructor
    · intro p listed p' listed' same
      rcases List.mem_pair.mp listed with rfl | rfl <;>
        rcases List.mem_pair.mp listed' with rfl | rfl <;>
          first | rfl | exact absurd same (by decide)
    · decide
  · decide
  · decide
  · decide
  · decide
  · intro p listed e member kind channel sync
    rcases List.mem_pair.mp listed with rfl | rfl <;>
      rcases List.mem_pair.mp member with rfl | rfl <;> cases sync <;> decide
  · decide

theorem namesUnconfused_rowModel : NamesUnconfused rowEnv rowModel := by
  constructor <;> decide

theorem bounds_open (q : Instance) : enumerationBounds rowEnv q 5 = .ok (0, 1) := rfl

theorem bounds_select (q : Instance) : enumerationBounds rowEnv q 6 = .ok (0, 2) := rfl

theorem instanceOf_row : InstanceOf rowEnv (rowProcess 2 1) (prefixOf rowEnv (rowProcess 2 1) [0])
    (instanceWith (rowProcess 2 1) [0]) :=
  ⟨_, .bind rfl (bounds_open _) (Int.le_refl 0) (by decide) (.done _ _), rfl⟩

/-- `r[2]` of the instance of `P` is `m[1][2]`, and its `d` is its own. -/
theorem synchronised_row :
    Synchronised rowEnv rowModel "m_1_2" ⟨none, 1, [1, 2]⟩ ⟨none, 1, [1, 2]⟩ ∧
      Synchronised rowEnv rowModel "P_i_0_d" ⟨some (2, [0]), 7, []⟩ ⟨some (2, [0]), 7, []⟩ := by
  have listed : rowProcess 2 1 ∈ rowModel.processes := List.mem_cons_self
  constructor
  · refine .edge (q := bindConstant (instanceWith (rowProcess 2 1) [0]) 6 2) listed instanceOf_row rfl
      ⟨List.mem_cons_self, .bind (bounds_select _) (by decide) (Int.le_refl 2) (.done _)⟩
      rfl rfl (.cell (.parameter rfl (.cell (.declared rfl) (.integer rfl)))
        (.bound rfl rfl rfl (.integer rfl))) ?_ rfl
    exact .cell (.parameter rfl (.cell (.declared rfl) (.constant rfl)))
      (.bound rfl rfl rfl rfl (.constant rfl) False.elim)
  · exact .edge listed instanceOf_row rfl
      ⟨List.mem_cons_of_mem _ List.mem_cons_self, .done _⟩ rfl rfl (.declared rfl) (.declared rfl) rfl

/-- `const int b1[1] = { 2 }, b2[1] = { 3 }, a[1] = true ? b1 : b2; chan c[3];` and the
processes `P` and `Q`. -/
def choiceEnv : Env :=
  envOfSymbols [⟨"t(0)", .prim .clock, false, some ⟨none⟩⟩,
    ⟨"b1", numbers, false, some ⟨some (.nary .list [.constant 2 (.prim .int)] numbers)⟩⟩,
    ⟨"b2", numbers, false, some ⟨some (.nary .list [.constant 3 (.prim .int)] numbers)⟩⟩,
    ⟨"a", numbers, false, some ⟨some (.inlineIf (.constant 1 (.prim .bool)) (.identifier 1 numbers)
      (.identifier 2 numbers) numbers)⟩⟩,
    ⟨"c", channels, false, some ⟨none⟩⟩, ⟨"P", .prim .unknown, false, none⟩,
    ⟨"Q", .prim .unknown, false, none⟩, ⟨"A", .prim .location, true, none⟩]
where
  numbers : Ty := .pre .constant (.array (.prim .int) (indexUpTo 0))
  channels : Ty := .array (.prim .channel) (indexUpTo 2)

/-- `a[0]`. -/
def choiceIndex : Expr :=
  .binary .array (.identifier 3 choiceEnv.numbers) (.constant 0 (.prim .int)) (.pre .constant (.prim .int))

/-- A process with an edge that synchronises on `c[index]`. -/
def choiceProcess (uid : Symbol) (kind : SyncKind) (index : Expr) : Instance :=
  { uid, parameters := [], mapping := ∅, unbound := 0
    templ := { vars := [], iodecl := [], functions := [], init := 7, states := [⟨7, none⟩]
               edges := [{ actname := "", src := some 7, dst := some 7, select := []
                           guard := .constant 1 (.prim .bool)
                           sync := some (.sync kind (.binary .array (.identifier 4 choiceEnv.channels) index
                             (.prim .channel)))
                           assign := .constant 1 (.prim .int) }] } }

/-- `P` has `sync c[a[0]]!` and `Q` has `sync c[2]?`. -/
def choiceModel : TimedAutomataSystem :=
  ⟨⟨[0, 1, 2, 3, 4], [], []⟩,
    [choiceProcess 5 .bang choiceIndex, choiceProcess 6 .que (.constant 2 (.prim .int))]⟩

theorem scoped_choice : Scoped choiceEnv choiceModel := by
  constructor
  · constructor
    · intro p listed p' listed' same
      rcases List.mem_pair.mp listed with rfl | rfl <;>
        rcases List.mem_pair.mp listed' with rfl | rfl <;>
          first | rfl | exact absurd same (by decide)
    · decide
  · decide
  · decide
  · decide
  · decide
  · intro p listed e member kind channel sync
    rcases List.mem_pair.mp listed with rfl | rfl <;>
      cases List.mem_singleton.mp member <;> cases sync <;> decide
  · decide

/-- The value of `a[0]` is that of `b1[0]`. -/
theorem evaluates_choiceIndex (p : Option Instance) : Evaluates choiceEnv p choiceIndex 2 := by
  have array : Contains choiceEnv p (.identifier 1 choiceEnv.numbers) [0] 2 :=
    .initialised rfl rfl (.entry rfl rfl (.integer rfl) (.integer rfl) (by decide) rfl (.integer rfl))
  exact .cell (.integer rfl) (.initialised rfl rfl (.chooseYes (.boolean rfl rfl) (by decide) array))

/-- The first operand of the initialiser of `a` is the condition of the choice. -/
theorem yields_choiceIndex (p : Option Instance) : YieldsInitially choiceEnv p choiceIndex 1 :=
  .cell rfl (.constant rfl) rfl rfl rfl (.constant rfl) (.constant rfl) (by decide) rfl rfl (.constant rfl)
    False.elim False.elim

end Utot
