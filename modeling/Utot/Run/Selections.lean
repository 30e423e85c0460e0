import Utot.Library.Appending
import Utot.Library.Products
import Utot.Run.Agreement
import Utot.Run.Declarations

/-!
# Edges with selections

The edge lines a run adds: one for each tuple of values of the select variables,
in lexicographic order, each translated with the variables bound to the tuple.
-/

namespace Utot

open Utap Library Tchecker

/-! ## Lines of one kind -/

/-- The lines of a kind written so far. -/
def pickedLines (pick : Line → Bool) (st : TrState) : List Line := st.lines.filter pick

def isEdge : Line → Bool
  | .edge _ _ _ _ _ => true
  | _ => false

section

variable {pick : Line → Bool}

theorem pickedLines_writeLine (l : Line) (st : TrState) :
    pickedLines pick (st.writeLine l) = pickedLines pick st ++ [l].filter pick := by
  unfold pickedLines
  rw [TrState.lines_writeLine, List.filter_append]

theorem appends_writeLine {l : Line} (picked : pick l = true) :
    Appends (pickedLines pick) (writeLine l) fun _ ls => ls = [l] :=
  Appends.update [l] (fun st => by rw [pickedLines_writeLine, List.filter_singleton, picked]; rfl) rfl

theorem silent_writeLine {l : Line} (other : pick l = false) :
    Keeps (sameOutput (pickedLines pick)) (writeLine l) :=
  Keeps.update fun st => by
    change pickedLines pick (st.writeLine l) = _
    rw [pickedLines_writeLine, List.filter_singleton, other]
    exact List.append_nil _

theorem silent_commentln (args : List Arg) :
    Keeps (sameOutput (pickedLines pick)) (commentln args) :=
  Keeps.update fun st => congrArg (List.filter pick) (st.lines_comment args)

theorem silent_message (verboseLevel level : Nat) (args : List Arg) :
    Keeps (sameOutput (pickedLines pick)) (msg verboseLevel level args) :=
  Keeps.branch (Keeps.update fun st => congrArg (List.filter pick) (st.lines_message level args))
    (Keeps.ret _)

/-- A loop over an interval adds a block for each of its numbers. -/
theorem appends_forRange {out : TrState → List Line} {m M : Int} {body : Int → Tr Unit}
    {B : Int → List Line → Prop} (round : ∀ i, m ≤ i → i ≤ M → Appends out (body i) fun _ => B i) :
    Appends out (forRange m M body) fun _ ls =>
      ∃ blocks, List.Forall₂ B (intRange m M) blocks ∧ ls = blocks.flatten := by
  have rounds : ∀ i ∈ intRange m M, Appends out (body i) fun _ => B i := by
    intro i listed
    obtain ⟨lower, upper⟩ := mem_intRange.mp listed
    exact round i lower upper
  refine (Appends.forM rounds).bind fun _ ls blocks => ?_
  refine Appends.silent (Keeps.branch (Keeps.lift _) (Keeps.ret _)) fun _ => ?_
  rw [List.append_nil]
  exact blocks

end

/-! ## The line of an edge -/

/-- The event of an edge: `tau`, or the one of its synchronisation. -/
inductive EdgeLabel (env : Env) (ctx : ContextPrefix) (q : Instance) : Option Expr → String → Prop where
  | internal : EdgeLabel env ctx q none tauEvent
  | sync {kind : SyncKind} {reference : Expr} {channel : Symbol} {label : String}
      (symbol : (Expr.sync kind reference).getSymbol? = some channel)
      (base : baseLabel env q channel (.sync kind reference) ctx = .ok label) :
      EdgeLabel env ctx q (some (.sync kind reference)) (eventOf kind label)

/-- The line of an edge in an instance: the ends, the label, the guard and the update. -/
inductive EdgeLine (env : Env) (e : Edge) (ctx : ContextPrefix) (q : Instance) : Line → Prop where
  | line {src tgt : Symbol} {event : String} {attr : Attributes} (source : e.src = some src)
      (target : e.dst = some tgt) (label : EdgeLabel env ctx q e.sync event)
      (attributes : edgeAttributes env e ctx q = .ok attr) :
      EdgeLine env e ctx q
        (.edge (stringOf ctx) (env.getName src) (env.getName tgt) event attr.toList)

section

variable {env : Env} {e : Edge} {ctx : ContextPrefix}

theorem silent_declareLocalEvent (label : String) :
    Keeps (sameOutput (pickedLines isEdge)) (declareLocalEvent label) :=
  Keeps.bind Keeps.read fun _ => Keeps.branch
    (Keeps.bind (silent_writeLine rfl) fun _ => Keeps.update fun _ => rfl) (Keeps.ret _)

theorem silent_declareEvent (channel : Symbol) (event : Expr) (ev s : String) :
    Keeps (sameOutput (pickedLines isEdge)) (declareEvent env channel event ev s) := by
  refine Keeps.bind Keeps.read fun st => Keeps.branch ?_ (Keeps.ret _)
  have declare : Keeps (sameOutput (pickedLines isEdge)) (do
      writeLine (.event ev)
      modify fun st => { st with
        events := { st.events with
          labels := st.events.labels.insert ev
          brodcasts :=
            if sIsBroadcast env channel then st.events.brodcasts.insert s else st.events.brodcasts } } :
        Tr Unit) :=
    Keeps.bind (silent_writeLine rfl) fun _ => Keeps.update fun _ => rfl
  dsimp only
  split
  · exact Keeps.bind (silent_message _ _ _) fun _ => declare
  · exact declare

theorem appends_edgeEvent (q : Instance) :
    Appends (pickedLines isEdge) (edgeEvent env e ctx q) fun ev ls =>
      ls = [] ∧ EdgeLabel env ctx q e.sync ev := by
  unfold edgeEvent
  split
  · rename_i plain
    rw [plain]
    exact Appends.ret ⟨rfl, .internal⟩
  · rename_i kind reference labelled
    rw [labelled]
    unfold sBuildEdgeLabel
    dsimp only
    split
    · exact Appends.lift fun _ failed => by cases failed
    · rename_i channel symbol
      refine Appends.silentBind (silent_message _ _ _) fun _ => ?_
      refine Appends.liftBind fun label base => ?_
      have finish : Appends (pickedLines isEdge) (do
          declareEvent env channel (.sync kind reference) (eventOf kind label) label
          modify fun st => { st with events := recordEvent st.events kind label (stringOf ctx) }
          pure (eventOf kind label) : Tr String) fun ev ls =>
            ls = [] ∧ EdgeLabel env ctx q (some (.sync kind reference)) ev := by
        refine Appends.silentBind (silent_declareEvent _ _ _ _) fun _ => ?_
        refine Appends.silentBind (Keeps.update fun _ => rfl) fun _ => ?_
        exact Appends.ret ⟨rfl, .sync symbol base⟩
      split
      · exact Appends.silentBind (silent_declareLocalEvent label) fun _ => finish
      · exact finish
  · exact Appends.lift fun _ failed => by cases failed

theorem appends_edge (process src tgt event : String) (attr : Attributes) :
    Appends (pickedLines isEdge) (edge process src tgt event attr) fun _ ls =>
      ls = [.edge process src tgt event attr.toList] := by
  refine Appends.silentBind Keeps.read fun st => ?_
  dsimp only
  split
  · refine Appends.silentBind (silent_commentln _) fun _ => ?_
    refine Appends.silentBind (silent_writeLine rfl) fun _ => ?_
    exact Appends.silentBind (Keeps.update fun _ => rfl) fun _ => appends_writeLine rfl
  · exact appends_writeLine rfl

theorem endName_eq_ok {s : Option Symbol} {name : String} (found : endName env s = .ok name) :
    ∃ symbol, s = some symbol ∧ name = env.getName symbol := by
  cases s with
  | none => cases found
  | some symbol =>
      cases found
      exact ⟨symbol, rfl, rfl⟩

/-- An edge of an instance adds one edge line. -/
theorem appends_translateEdge (q : Instance) :
    Appends (pickedLines isEdge) (sTranslateEdge env e ctx q) fun _ ls =>
      ∃ l, ls = [l] ∧ EdgeLine env e ctx q l := by
  have finish : Appends (pickedLines isEdge) (do
      let ev ← edgeEvent env e ctx q
      let src ← fromExcept (endName env e.src)
      let tgt ← fromExcept (endName env e.dst)
      assertTr (e.actname == "SKIP" || e.actname == "") "e.actname == \"SKIP\" || e.actname == \"\""
      let attr ← fromExcept (edgeAttributes env e ctx q)
      edge (stringOf ctx) src tgt ev attr : Tr Unit) fun _ ls =>
        ∃ l, ls = [l] ∧ EdgeLine env e ctx q l := by
    refine (appends_edgeEvent q).bind fun ev ls labelled => ?_
    obtain ⟨rfl, label⟩ := labelled
    refine Appends.liftBind fun src source => ?_
    refine Appends.liftBind fun tgt target => ?_
    refine Appends.silentBind (Keeps.lift _) fun _ => ?_
    refine Appends.liftBind fun attr attributes => ?_
    obtain ⟨s, source', rfl⟩ := endName_eq_ok source
    obtain ⟨t, target', rfl⟩ := endName_eq_ok target
    refine (appends_edge _ _ _ _ _).weaken fun _ ls same => ?_
    exact ⟨_, same, .line source' target' label attributes⟩
  unfold sTranslateEdge
  split
  · exact Appends.silentBind (silent_commentln _) fun _ => finish
  · exact finish

/-! ## The tuples of a selection -/

/-- The values the loop over a select variable or an open parameter runs through. -/
def rangeOf (env : Env) (s : Symbol) (p : Instance) : List Int :=
  match enumerationBounds env p s with
  | .ok (min, max) => intRange min max
  | .error _ => []

theorem mem_rangeOf {s : Symbol} {p : Instance} {i : Int} : i ∈ rangeOf env s p ↔
    ∃ min max, enumerationBounds env p s = .ok (min, max) ∧ min ≤ i ∧ i ≤ max := by
  unfold rangeOf
  cases bounds : enumerationBounds env p s with
  | error _ => simp
  | ok b =>
      dsimp only
      rw [mem_intRange]
      constructor
      · exact fun inside => ⟨b.1, b.2, rfl, inside⟩
      · rintro ⟨min, max, same, inside⟩
        cases same
        exact inside

theorem pairwise_rangeOf (s : Symbol) (p : Instance) : (rangeOf env s p).Pairwise (· < ·) := by
  unfold rangeOf
  split
  · exact pairwise_intRange _ _
  · exact .nil

/-- Each value is within the bounds its select variable has behind the values in
front of it. -/
inductive InRanges (env : Env) : List Symbol → Instance → List Int → Prop where
  | nil {p : Instance} : InRanges env [] p []
  | cons {sel : Symbol} {rest : List Symbol} {p : Instance} {min max i : Int} {values : List Int}
      (bounds : enumerationBounds env p sel = .ok (min, max)) (lower : min ≤ i) (upper : i ≤ max)
      (later : InRanges env rest (bindConstant p sel i) values) :
      InRanges env (sel :: rest) p (i :: values)

/-- The tuples of values of select variables, in the order of the loops. -/
abbrev selections (env : Env) (select : List Symbol) (p : Instance) : List (List Int) :=
  tuples (rangeOf env) bindConstant select p

theorem mem_selections {select : List Symbol} {p : Instance} {values : List Int} :
    values ∈ selections env select p ↔ InRanges env select p values := by
  rw [mem_tuples]
  constructor
  · intro chosen
    induction chosen with
    | nil => exact .nil
    | cons listed _ ih =>
        obtain ⟨min, max, bounds, lower, upper⟩ := mem_rangeOf.mp listed
        exact .cons bounds lower upper ih
  · intro inside
    induction inside with
    | nil => exact .nil
    | cons bounds lower upper _ ih => exact .cons (mem_rangeOf.mpr ⟨_, _, bounds, lower, upper⟩) ih

/-- The instance in which symbols are bound to values and nothing else has changed. -/
structure BoundTo (p : Instance) (symbols : List Symbol) (values : List Int) (q : Instance) :
    Prop where
  uid : q.uid = p.uid
  parameters : q.parameters = p.parameters
  unbound : q.unbound = p.unbound
  templ : q.templ = p.templ
  count : values.length = symbols.length
  bound : ∀ (k : Nat) (s : Symbol) (i : Int), symbols[k]? = some s → values[k]? = some i →
    q.mapping[s]? = some (Expr.createConstant i)
  kept : ∀ s, s ∉ symbols → q.mapping[s]? = p.mapping[s]?

theorem lookup_bindConstant (p : Instance) (s s' : Symbol) (i : Int) :
    (bindConstant p s i).mapping[s']? =
      if s = s' then some (Expr.createConstant i) else p.mapping[s']? := by
  unfold bindConstant
  dsimp only
  rw [Std.TreeMap.getElem?_insert]
  by_cases same : s = s'
  · rw [if_pos same, if_pos (Std.compare_eq_iff_eq.mpr same)]
  · rw [if_neg same, if_neg fun equal => same (Std.compare_eq_iff_eq.mp equal)]

theorem boundTo_bindTuple {symbols : List Symbol} (distinct : symbols.Nodup) (p : Instance)
    {values : List Int} (count : values.length = symbols.length) :
    BoundTo p symbols values (bindTuple bindConstant symbols p values) := by
  induction symbols generalizing p values with
  | nil =>
      rw [List.length_nil, List.length_eq_zero_iff] at count
      subst count
      exact ⟨rfl, rfl, rfl, rfl, rfl, by simp, fun _ _ => rfl⟩
  | cons s rest ih =>
      cases values with
      | nil => cases count
      | cons i values =>
          obtain ⟨fresh, distinct⟩ := List.nodup_cons.mp distinct
          have later := ih distinct (bindConstant p s i) (Nat.succ.inj count)
          refine ⟨later.uid, later.parameters, later.unbound, later.templ, count, ?_, ?_⟩
          · intro k s' i' symbol value
            cases k with
            | zero =>
                cases symbol
                cases value
                rw [bindTuple, later.kept s fresh, lookup_bindConstant, if_pos rfl]
            | succ k => exact later.bound k s' i' symbol value
          · intro s' other
            rw [List.mem_cons, not_or] at other
            rw [bindTuple, later.kept s' other.2, lookup_bindConstant, if_neg (Ne.symm other.1)]

/-! ## The lines of a selection -/

theorem appends_edgeWithSelect (select : List Symbol) (p : Instance) :
    Appends (pickedLines isEdge) (sTranslateEdgeWithSelect env e ctx select p) fun _ =>
      List.Forall₂ (fun values => EdgeLine env e ctx (bindTuple bindConstant select p values))
        (selections env select p) := by
  induction select generalizing p with
  | nil =>
      refine (appends_translateEdge p).weaken fun _ ls single => ?_
      obtain ⟨l, rfl, line⟩ := single
      exact .cons line .nil
  | cons sel rest ih =>
      refine Appends.liftBind fun bounds same => ?_
      obtain ⟨min, max⟩ := bounds
      refine (appends_forRange fun i _ _ => ih (bindConstant p sel i)).weaken fun _ ls added => ?_
      obtain ⟨blocks, rounds, rfl⟩ := added
      have range : rangeOf env sel p = intRange min max := by
        unfold rangeOf
        rw [same]
      rw [selections, tuples, range]
      refine forall₂_flatten (rounds.imp fun i block lines => ?_)
      rw [List.forall₂_map_left_iff]
      exact lines

/-! ## Selections are expanded to their product -/

/-- The lines of an edge are those of the tuples of values of its select variables,
each value within the range it has behind those in front of it, in lexicographic
order; a line is the translation of the edge with the variables bound to the tuple. -/
def Expansion (env : Env) (ctx : ContextPrefix) (p : Instance) (e : Edge) (lines : List Line) : Prop :=
  ∃ values : List (List Int), values.Pairwise (List.Lex (· < ·)) ∧
    (∀ v, v ∈ values ↔ InRanges env e.select p v) ∧
    List.Forall₂ (fun v l => ∃ q, BoundTo p e.select v q ∧ EdgeLine env e ctx q l) values lines

theorem appends_expansion (distinct : e.select.Nodup) (p : Instance) :
    Appends (pickedLines isEdge) (sTranslateEdgeWithSelect env e ctx e.select p) fun _ ls =>
      Expansion env ctx p e ls := by
  refine (appends_edgeWithSelect e.select p).weaken fun _ ls lines => ?_
  refine ⟨selections env e.select p, pairwise_tuples pairwise_rangeOf _ _, fun v => mem_selections, ?_⟩
  rw [List.forall₂_iff_get] at lines ⊢
  refine ⟨lines.1, fun k inside inside' => ⟨_, boundTo_bindTuple distinct p ?_, lines.2 k inside inside'⟩⟩
  exact (mem_tuples.mp (List.get_mem _ _)).length_eq

/-- `s_translate_edge_with_select`, which overwrites its copy of the mapping, adds the
lines of the product of the ranges of its select variables; in `s_translate_edges`
every edge is expanded with the mapping the process has. -/
theorem selections_expanded (p : Instance) (distinct : ∀ e ∈ p.templ.edges, e.select.Nodup) :
    (∀ e ∈ p.templ.edges, ∀ st st' q,
      exec (sTranslateEdgeWithSelectInPlace env e ctx e.select p) st = (.ok q, st') →
        ∃ lines, pickedLines isEdge st' = pickedLines isEdge st ++ lines ∧ Expansion env ctx p e lines) ∧
    ∀ st st', exec (sTranslateEdgesInPlace env ctx p) st = (.ok (), st') →
      ∃ blocks, pickedLines isEdge st' = pickedLines isEdge st ++ blocks.flatten ∧
        List.Forall₂ (Expansion env ctx p) p.templ.edges blocks := by
  constructor
  · intro e listed st st' q run
    have discarded : exec (sTranslateEdgeWithSelect env e ctx e.select p) st = (.ok (), st') := by
      rw [← edgeWithSelect_inPlace, exec_bind_ok run]
      rfl
    exact appends_expansion (distinct e listed) p st st' () discarded
  · intro st st' run
    rw [edges_inPlace] at run
    obtain ⟨ls, added, blocks, rounds, rfl⟩ :=
      Appends.forM (fun e listed => appends_expansion (distinct e listed) p) st st' () run
    exact ⟨blocks, added, rounds⟩

end

/-! ## A selection whose second range depends on a parameter -/

/-- `process P(const int[0,1] n)` with `select i : int[0,1], j : int[0,n]; guard j <= i`. -/
def gridEnv : Env :=
  envOfSymbols [⟨"t(0)", .prim .clock, false, some ⟨none⟩⟩, ⟨"P", .prim .unknown, false, none⟩,
    ⟨"A", .prim .location, true, none⟩, ⟨"i", bitType, true, none⟩,
    ⟨"j", .pre .constant (.range (.prim .int) (.constant 0 (.prim .int)) (.identifier 5 bitType)), true, none⟩,
    ⟨"n", bitType, true, none⟩]
where
  bitType : Ty :=
    .pre .constant (.range (.prim .int) (.constant 0 (.prim .int)) (.constant 1 (.prim .int)))

def gridEdge : Edge :=
  { actname := "", src := some 2, dst := some 2, select := [3, 4]
    guard := .binary .le (.identifier 4 gridEnv.bitType) (.identifier 3 gridEnv.bitType) (.prim .bool)
    sync := none, assign := .constant 1 (.prim .int) }

/-- The instance of `P` whose parameter has the value `n`. -/
def gridProcess (n : Int) : Instance :=
  { uid := 1, parameters := [5], mapping := (∅ : Std.TreeMap Symbol Expr).insert 5 (.createConstant n), unbound := 1
    templ := { vars := [], iodecl := [], functions := [], init := 2, states := [⟨2, none⟩], edges := [gridEdge] } }

/-- With the parameter 0 the edges are those of the tuples (0,0) and (1,0), with the
parameter 1 those of all pairs of bits. -/
theorem selections_expanded_grid :
    (¬ InRanges gridEnv [3, 4] (gridProcess 0) [1, 1] ∧ InRanges gridEnv [3, 4] (gridProcess 1) [1, 1]) ∧
      ∃ blocks, pickedLines isEdge
          (exec (sTranslateEdgesInPlace gridEnv ["P"] (gridProcess 1)) TrState.initial).2 =
            [] ++ blocks.flatten ∧
        List.Forall₂ (Expansion gridEnv ["P"] (gridProcess 1)) [gridEdge] blocks := by
  have distinct : ∀ e ∈ (gridProcess 1).templ.edges, e.select.Nodup := by decide
  refine ⟨⟨?_, ?_⟩, ?_⟩
  · intro inside
    have listed := mem_selections.mpr inside
    revert listed
    decide
  · exact mem_selections.mp (by decide)
  · exact (selections_expanded (gridProcess 1) distinct).2 TrState.initial _ (Prod.ext rfl rfl)

end Utot
