import Utot.Names.Cells
import Utot.Run.Selections

/-!
# Instances of a process

The blocks a process adds: one for each tuple of values of its open parameters,
in lexicographic order, each the translation of the template with the parameters
bound to the tuple and under the name of the tuple.
-/

namespace Utot

open Utap Library Tchecker

/-! ## Lines and table entries of one process -/

/-- The lines of a process behind its first one. -/
def LineOf (name : String) : Line → Prop
  | .event _ => True
  | .clock id _ => ∃ rest, id = name ++ "_" ++ rest
  | .intvar _ _ _ id _ => ∃ rest, id = name ++ "_" ++ rest
  | .location process _ _ => process = name
  | .edge process _ _ _ _ => process = name
  | .system _ => False
  | .process _ => False
  | .sync _ => False

/-- The entries of other processes are the same in both tables. -/
def SameOthers (name : String) (table table' : ProcTable) : Prop :=
  ∀ label process, process ≠ name → (process ∈ table'.procs label ↔ process ∈ table.procs label)

theorem SameOthers.refl (name : String) (table : ProcTable) : SameOthers name table table :=
  fun _ _ _ => Iff.rfl

theorem SameOthers.record (name label : String) (table : ProcTable) :
    SameOthers name table (table.record label name) := by
  intro other process differ
  rw [ProcTable.procs_record]
  split
  · rename_i same
    subst same
    rw [Std.TreeSet.mem_insert, Std.compare_eq_iff_eq, or_iff_right (Ne.symm differ)]
  · rfl

/-- All table entries made between the states are of the process. -/
structure OwnEntries (name : String) (events events' : GlobalEvents) : Prop where
  emitters : SameOthers name events.emitters events'.emitters
  receivers : SameOthers name events.receivers events'.receivers
  csp : SameOthers name events.csp events'.csp

theorem OwnEntries.refl (name : String) (events : GlobalEvents) : OwnEntries name events events :=
  ⟨.refl _ _, .refl _ _, .refl _ _⟩

theorem OwnEntries.trans {name : String} {a b c : GlobalEvents} (first : OwnEntries name a b)
    (second : OwnEntries name b c) : OwnEntries name a c where
  emitters label process differ := (second.emitters label process differ).trans
    (first.emitters label process differ)
  receivers label process differ := (second.receivers label process differ).trans
    (first.receivers label process differ)
  csp label process differ := (second.csp label process differ).trans (first.csp label process differ)

theorem OwnEntries.record (name label : String) (events : GlobalEvents) (kind : SyncKind) :
    OwnEntries name events (recordEvent events kind label name) := by
  cases kind with
  | que => exact ⟨.refl _ _, .record _ _ _, .refl _ _⟩
  | bang => exact ⟨.record _ _ _, .refl _ _, .refl _ _⟩
  | csp => exact ⟨.refl _ _, .refl _ _, .record _ _ _⟩

/-- The lines added are those of the process, and so are the table entries. -/
def ownFrame (name : String) : Frame TrState where
  rel s s' := (∃ ls, s'.lines = s.lines ++ ls ∧ ∀ l ∈ ls, LineOf name l) ∧
    OwnEntries name s.events s'.events
  refl s := ⟨⟨[], (List.append_nil _).symm, by simp⟩, .refl _ _⟩
  trans := by
    rintro a b c ⟨⟨ls, added, own⟩, entries⟩ ⟨⟨ls', added', own'⟩, entries'⟩
    refine ⟨⟨ls ++ ls', by rw [added', added, List.append_assoc], ?_⟩, entries.trans entries'⟩
    exact List.forall_mem_append.mpr ⟨own, own'⟩

section

variable {env : Env} {ctx : ContextPrefix} {name : String}

theorem own_of_sameLines {s s' : TrState} (lines : s'.lines = s.lines)
    (entries : OwnEntries name s.events s'.events) : (ownFrame name).rel s s' :=
  ⟨⟨[], by rw [lines, List.append_nil], by simp⟩, entries⟩

theorem own_write (s : TrState) {o : Output} (own : ∀ l, o = .line l → LineOf name l) :
    (ownFrame name).rel s (s.write o) := by
  cases o with
  | line l =>
      refine ⟨⟨[l], s.lines_writeLine l, ?_⟩, .refl _ _⟩
      rw [List.forall_mem_singleton]
      exact own l rfl
  | comment args => exact own_of_sameLines (s.lines_comment args) (.refl _ _)
  | blank => exact own_of_sameLines s.lines_blank (.refl _ _)
  | message level args => exact own_of_sameLines (s.lines_message level args) (.refl _ _)

theorem keepsOwn_line {l : Line} (own : LineOf name l) : Keeps (ownFrame name) (writeLine l) :=
  Keeps.update fun s => own_write s fun _ same => by cases same; exact own

theorem keepsOwn_comment (args : List Arg) : Keeps (ownFrame name) (commentln args) :=
  Keeps.update fun s => own_write s fun _ same => by cases same

theorem keepsOwn_message (verboseLevel level : Nat) (args : List Arg) :
    Keeps (ownFrame name) (msg verboseLevel level args) :=
  Keeps.branch (Keeps.update fun s => own_write s fun _ same => by cases same) (Keeps.ret _)

/-! ## What a process does -/

/-- The names of an instance start with its own. -/
theorem cellName_addPrefix (nonempty : ctx ≠ []) (variable' : String) (S : List Int) :
    ∃ rest, cellName (addPrefix ctx variable') S = stringOf ctx ++ "_" ++ rest := by
  have start : addPrefix ctx variable' = stringOf ctx ++ "_" ++ variable' := by
    cases ctx with
    | nil => exact absurd rfl nonempty
    | cons => rfl
  rw [start]
  clear start
  unfold cellName
  induction S.reverse generalizing variable' with
  | nil => exact ⟨variable', rfl⟩
  | cons i indices ih =>
      obtain ⟨rest, same⟩ := ih (variable' ++ "_" ++ toString i)
      refine ⟨rest, ?_⟩
      rw [List.foldl_cons, ← same]
      simp only [String.append_assoc]

theorem keepsOwn_declarations (nonempty : ctx ≠ []) (p : Option Instance) (decl : Declarations) :
    Keeps (ownFrame (stringOf ctx)) (translateDeclarations env p ctx decl) := by
  have writes : ∀ s o, DeclaresOnly (fun id => ∃ rest, id = stringOf ctx ++ "_" ++ rest) o →
      (ownFrame (stringOf ctx)).rel s (s.write o) := by
    intro s o declares
    apply own_write
    rintro l rfl
    cases l with
    | clock id size => exact declares
    | intvar min max init id size => exact declares
    | _ => cases declares
  exact keeps_translateDeclarations writes env p fun s _ S => cellName_addPrefix nonempty _ S

theorem keepsOwn_event (channel : Symbol) (event : Expr) (ev s : String) :
    Keeps (ownFrame name) (declareEvent env channel event ev s) := by
  have declare : Keeps (ownFrame name) (do
      writeLine (.event ev)
      modify fun st => { st with
        events := { st.events with
          labels := st.events.labels.insert ev
          brodcasts :=
            if sIsBroadcast env channel then st.events.brodcasts.insert s else st.events.brodcasts } } :
        Tr Unit) :=
    Keeps.bind (keepsOwn_line trivial) fun _ =>
      Keeps.update fun s => own_of_sameLines rfl ⟨.refl _ _, .refl _ _, .refl _ _⟩
  refine Keeps.bind Keeps.read fun st => Keeps.branch ?_ (Keeps.ret _)
  dsimp only
  split
  · exact Keeps.bind (keepsOwn_message _ _ _) fun _ => declare
  · exact declare

theorem keepsOwn_edgeEvent (e : Edge) (q : Instance) :
    Keeps (ownFrame (stringOf ctx)) (edgeEvent env e ctx q) := by
  unfold edgeEvent
  split
  · exact Keeps.ret _
  · rename_i kind reference _
    unfold sBuildEdgeLabel
    dsimp only
    split
    · exact Keeps.lift _
    · rename_i channel symbol
      refine Keeps.bind (keepsOwn_message _ _ _) fun _ => Keeps.bind (Keeps.lift _) fun label => ?_
      have finish : Keeps (ownFrame (stringOf ctx)) (do
          declareEvent env channel (.sync kind reference) (eventOf kind label) label
          modify fun st => { st with events := recordEvent st.events kind label (stringOf ctx) }
          pure (eventOf kind label) : Tr String) :=
        Keeps.bind (keepsOwn_event _ _ _ _) fun _ => Keeps.bind
          (Keeps.update fun s => own_of_sameLines rfl (.record _ _ _ _)) fun _ => Keeps.ret _
      split
      · refine Keeps.bind (Keeps.bind Keeps.read fun _ => Keeps.branch ?_ (Keeps.ret _)) fun _ => finish
        exact Keeps.bind (keepsOwn_line trivial) fun _ =>
          Keeps.update fun s => own_of_sameLines rfl (.refl _ _)
      · exact finish
  · exact Keeps.lift _

theorem keepsOwn_edge (src tgt event : String) (attr : Attributes) :
    Keeps (ownFrame name) (edge name src tgt event attr) := by
  refine Keeps.bind Keeps.read fun st => ?_
  dsimp only
  split
  · exact Keeps.bind (keepsOwn_comment _) fun _ => Keeps.bind (keepsOwn_line trivial) fun _ =>
      Keeps.bind (Keeps.update fun s => own_of_sameLines rfl (.refl _ _)) fun _ => keepsOwn_line rfl
  · exact keepsOwn_line rfl

theorem keepsOwn_translateEdge (e : Edge) (q : Instance) :
    Keeps (ownFrame (stringOf ctx)) (sTranslateEdge env e ctx q) := by
  have finish : Keeps (ownFrame (stringOf ctx)) (do
      let ev ← edgeEvent env e ctx q
      let src ← fromExcept (endName env e.src)
      let tgt ← fromExcept (endName env e.dst)
      assertTr (e.actname == "SKIP" || e.actname == "") "e.actname == \"SKIP\" || e.actname == \"\""
      let attr ← fromExcept (edgeAttributes env e ctx q)
      edge (stringOf ctx) src tgt ev attr : Tr Unit) :=
    Keeps.bind (keepsOwn_edgeEvent e q) fun ev => Keeps.bind (Keeps.lift _) fun src =>
      Keeps.bind (Keeps.lift _) fun tgt => Keeps.bind (Keeps.lift _) fun _ =>
        Keeps.bind (Keeps.lift _) fun attr => keepsOwn_edge src tgt ev attr
  unfold sTranslateEdge
  split
  · exact Keeps.bind (keepsOwn_comment _) fun _ => finish
  · exact finish

/-- What is written and recorded behind the `process` line. -/
def OwnBlock (name : String) (s s' : TrState) : Prop :=
  (∃ rest, s'.lines = s.lines ++ .process name :: rest ∧ ∀ l ∈ rest, LineOf name l) ∧
    OwnEntries name s.events s'.events

theorem OwnBlock.later {s st st' : TrState} (block : OwnBlock name s st)
    (within : (ownFrame name).rel st st') : OwnBlock name s st' := by
  obtain ⟨⟨rest, lines, own⟩, entries⟩ := block
  obtain ⟨⟨ls, added, own'⟩, entries'⟩ := within
  refine ⟨⟨rest ++ ls, ?_, List.forall_mem_append.mpr ⟨own, own'⟩⟩, ?_⟩
  · rw [added, lines, List.append_assoc, List.cons_append]
  · exact entries.trans entries'

/-- An instance starts with its `process` line, and everything behind it is its own. -/
theorem instance_own (nonempty : ctx ≠ []) (p : Instance) (m : Mapping) {s s' : TrState}
    (run : exec (sTranslateInstance env ctx p m) s = (.ok (), s')) : OwnBlock (stringOf ctx) s s' := by
  have body : Keeps (ownFrame (stringOf ctx)) (do
      translateDeclarations env (mergeMapping p m) ctx (mergeMapping p m).templ.toDeclarations
      sTranslateStates env ctx (mergeMapping p m)
      sTranslateEdges env ctx (mergeMapping p m)
      write .blank : Tr Unit) := by
    refine Keeps.bind (keepsOwn_declarations nonempty _ _) fun _ =>
      Keeps.bind (Keeps.forM fun s _ => ?_) fun _ =>
        Keeps.bind (Keeps.forM fun e _ => ?_) fun _ =>
          Keeps.update fun s => own_write s fun _ same => by cases same
    · exact Keeps.bind (Keeps.lift _) fun attr => keepsOwn_line rfl
    · exact keeps_edgeWithSelect e ctx _ _ fun q _ => keepsOwn_translateEdge e q
  let before (st : TrState) : Prop := st.lines = s.lines ∧ st.events = s.events
  have finish : Spec before (do
      writeLine (.process (stringOf ctx))
      translateDeclarations env (mergeMapping p m) ctx (mergeMapping p m).templ.toDeclarations
      sTranslateStates env ctx (mergeMapping p m)
      sTranslateEdges env ctx (mergeMapping p m)
      write .blank : Tr Unit) (fun _ => OwnBlock (stringOf ctx) s) fun _ => True := by
    refine Spec.bind (Q := fun _ => OwnBlock (stringOf ctx) s) (Spec.update fun st pre => ?_) fun _ => ?_
    · obtain ⟨lines, events⟩ := pre
      refine ⟨⟨[], by rw [TrState.lines_writeLine, lines], by simp⟩, ?_⟩
      rw [TrState.writeLine_events, events]
      exact .refl _ _
    · exact (body.spec fun st st' within block => block.later within).weaken (fun _ pre => pre)
        (fun _ _ post => post) fun _ _ => trivial
  have spec : Spec before (sTranslateInstance env ctx p m) (fun _ => OwnBlock (stringOf ctx) s)
      fun _ => True := by
    refine Spec.bind (Q := fun _ => before) (Spec.update fun _ pre => pre) fun _ =>
      Spec.bind (Q := fun _ => before) (Spec.lift (fun _ pre _ _ => pre) fun _ _ _ _ => trivial)
        fun _ => ?_
    dsimp only
    split
    · exact Spec.bind (Spec.update fun st pre => ⟨(st.lines_comment _).trans pre.1, pre.2⟩)
        fun _ => finish
    · exact finish
  exact spec.returned ⟨rfl, rfl⟩ run

/-! ## The tuples of values of open parameters -/

theorem rounds_of_forRange {m M : Int} {body : Int → Tr Unit} {s s' : TrState}
    (run : exec (forRange m M body) s = (.ok (), s')) :
    Rounds (fun s i s' => exec (body i) s = (.ok (), s')) s (intRange m M) s' := by
  unfold forRange at run
  rw [exec_bind] at run
  rcases outcome : exec ((intRange m M).forM body) s with ⟨_ | _, middle⟩
  · rw [outcome] at run
    cases run
  · rw [outcome] at run
    dsimp only at run
    split at run
    · cases run
    · cases run
      exact rounds_of_forM outcome

/-- The tuples of the product of the ranges of symbols, in the order of the loops. -/
abbrev products (env : Env) (p : Instance) (symbols : List Symbol) : List (List Int) :=
  tuples (fun s (_ : Unit) => rangeOf env s p) (fun _ _ _ => ()) symbols ()

/-- Each value is within the bounds of its parameter. -/
def InProduct (env : Env) (p : Instance) (symbols : List Symbol) (values : List Int) : Prop :=
  List.Forall₂ (fun s i => ∃ min max, enumerationBounds env p s = .ok (min, max) ∧ min ≤ i ∧ i ≤ max)
    symbols values

theorem mem_products {p : Instance} {symbols : List Symbol} {values : List Int} :
    values ∈ products env p symbols ↔ InProduct env p symbols values := by
  rw [mem_tuples]
  constructor
  · generalize () = state
    intro chosen
    induction chosen with
    | nil => exact .nil
    | cons listed _ ih => exact .cons (mem_rangeOf.mp listed) ih
  · intro inside
    induction inside with
    | nil => exact .nil
    | cons within _ ih => exact .cons (mem_rangeOf.mpr within) ih

/-- The loops over open parameters translate an instance for each tuple, one after
the other. -/
theorem processRec_rounds {p : Instance} {n : Nat} {m : Mapping} {s s' : TrState}
    (run : exec (sTranslateProcessRec env p n ctx m) s = (.ok (), s')) :
    Rounds (fun s values s' => exec (sTranslateInstance env
        (ctx ++ List.zipWith (sAssignmentToString env) (p.parameters.take n).reverse values) p
        (bindAll m ((p.parameters.take n).reverse.zip values))) s = (.ok (), s'))
      s (products env p (p.parameters.take n).reverse) s' := by
  induction n generalizing ctx m s s' with
  | zero =>
      refine .cons ?_ .nil
      rw [List.take_zero, List.reverse_nil, List.zipWith_nil_left, List.append_nil]
      exact run
  | succ n ih =>
      obtain ⟨parameter, found, run⟩ := exec_liftBind_ok run
      obtain ⟨⟨min, max⟩, bounds, run⟩ := exec_liftBind_ok run
      have next : (p.parameters.take (n + 1)).reverse = parameter :: (p.parameters.take n).reverse := by
        rw [List.take_add_one, orAssert_eq_ok.mp found]
        simp
      have range : rangeOf env parameter p = intRange min max := by
        unfold rangeOf
        rw [bounds]
      rw [next, products, tuples, range]
      refine Rounds.flatMap ((rounds_of_forRange run).imp fun i _ s s' run => Rounds.map ?_)
      refine (ih run).imp fun values _ s s' run => ?_
      rw [List.append_assoc, List.singleton_append] at run
      rw [List.zipWith_cons_cons, List.zip_cons_cons]
      exact run

/-! ## Bindings of an instance -/

theorem lookup_mergeMapping (p : Instance) (m : Mapping) (s : Symbol) :
    (mergeMapping p m).mapping[s]? = (m[s]?).or p.mapping[s]? := by
  have loop : ∀ (entries : List (Symbol × Expr)) (later : Mapping),
      (∀ kv ∈ entries, m[kv.1]? = some kv.2) →
      (entries.foldl (fun m kv => m.insert kv.1 kv.2) later)[s]? =
        if s ∈ entries.map Prod.fst then m[s]? else later[s]? := by
    intro entries
    induction entries with
    | nil => exact fun later _ => rfl
    | cons kv rest ih =>
        intro later listed
        rw [List.foldl_cons, ih _ fun entry inside => listed entry (List.mem_cons_of_mem _ inside),
          List.map_cons, Std.TreeMap.getElem?_insert]
        by_cases behind : s ∈ rest.map Prod.fst
        · rw [if_pos behind, if_pos (List.mem_cons_of_mem _ behind)]
        · rw [if_neg behind]
          by_cases same : kv.1 = s
          · subst same
            rw [if_pos Std.ReflCmp.compare_self, if_pos List.mem_cons_self,
              listed kv List.mem_cons_self]
          · rw [if_neg fun equal => same (Std.compare_eq_iff_eq.mp equal), if_neg]
            exact fun inside => (List.mem_cons.mp inside).elim (fun equal => same equal.symm) behind
  have listed : ∀ kv ∈ m.toList, m[kv.1]? = some kv.2 := fun kv inside =>
    Std.TreeMap.mem_toList_iff_getElem?_eq_some.mp inside
  have keys : s ∈ m.toList.map Prod.fst ↔ s ∈ m := by
    rw [Std.TreeMap.map_fst_toList_eq_keys, Std.TreeMap.mem_keys]
  unfold mergeMapping
  dsimp only
  rw [loop m.toList p.mapping listed]
  cases found : m[s]? with
  | none =>
      have outside : s ∉ m.toList.map Prod.fst := by
        intro inside
        have bound := Std.TreeMap.isSome_getElem?_iff_mem.mpr (keys.mp inside)
        rw [found] at bound
        cases bound
      rw [if_neg outside, Option.none_or]
  | some value =>
      have inside : s ∈ m := Std.TreeMap.isSome_getElem?_iff_mem.mp (by rw [found]; rfl)
      rw [if_pos (keys.mpr inside), Option.some_or]

theorem bindAll_zip (p : Instance) (symbols : List Symbol) (values : List Int) :
    bindAll p.mapping (symbols.zip values) = (bindTuple bindConstant symbols p values).mapping := by
  induction symbols generalizing p values with
  | nil => rfl
  | cons s rest ih =>
      cases values with
      | nil => rfl
      | cons i values => exact ih (bindConstant p s i) values

/-- The mapping of an instance is that of the process and the tuple. -/
theorem boundTo_instance {p : Instance} {symbols : List Symbol} (distinct : symbols.Nodup)
    {values : List Int} (count : values.length = symbols.length) :
    BoundTo p symbols values (mergeMapping p (bindAll p.mapping (symbols.zip values))) := by
  have bound := boundTo_bindTuple distinct p count
  rw [bindAll_zip]
  refine ⟨rfl, rfl, rfl, rfl, count, ?_, ?_⟩
  · intro k s i symbol value
    rw [lookup_mergeMapping, bound.bound k s i symbol value, Option.some_or]
  · intro s other
    rw [lookup_mergeMapping, bound.kept s other, Option.or_self]

/-- The name of an instance: the process and the values of its open parameters. -/
def instanceName (env : Env) (p : Instance) (values : List Int) : String :=
  stringOf (prefixOf env p values)

theorem instanceName_injective {p : Instance} {v v' : List Int}
    (count : v.length = (openParameters p).length) (count' : v'.length = (openParameters p).length)
    (same : instanceName env p v = instanceName env p v') : v = v' := by
  have texts := congrArg String.toList same
  unfold instanceName prefixOf at texts
  rw [toList_stringOf, toList_stringOf] at texts
  have tails : assignmentsText env (openParameters p) v ++ [] =
      assignmentsText env (openParameters p) v' ++ [] := by
    rw [List.append_nil, List.append_nil]
    exact List.append_cancel_left texts
  exact (assignmentsText_injective count count' isTail_nil isTail_nil tails).1

/-! ## Processes are enumerated -/

/-- One round: the translation of the template with the open parameters bound to the
values and every other symbol as in the process; it starts with its `process` line,
and the lines and table entries behind are under its name. -/
def InstanceRound (env : Env) (p : Instance) (s : TrState) (values : List Int) (s' : TrState) : Prop :=
  ∃ m, BoundTo p (openParameters p) values (mergeMapping p m) ∧
    exec (sTranslateInstance env (prefixOf env p values) p m) s = (.ok (), s') ∧
    OwnBlock (instanceName env p values) s s'

def isProcess : Line → Bool
  | .process _ => true
  | _ => false

theorem processes_of_block {s s' : TrState} (block : OwnBlock name s s') :
    pickedLines isProcess s' = pickedLines isProcess s ++ [.process name] := by
  obtain ⟨⟨rest, lines, own⟩, _⟩ := block
  have none : rest.filter isProcess = [] := by
    rw [List.filter_eq_nil_iff]
    intro l inside process
    have ofInstance := own l inside
    cases l with
    | process => exact ofInstance
    | _ => cases process
  unfold pickedLines
  rw [lines, List.filter_append, List.filter_cons_of_pos rfl, none]

theorem processes_of_rounds {p : Instance} {values : List (List Int)} {s s' : TrState}
    (rounds : Rounds (InstanceRound env p) s values s') :
    pickedLines isProcess s' =
      pickedLines isProcess s ++ values.map fun v => .process (instanceName env p v) := by
  induction rounds with
  | nil => rw [List.map_nil, List.append_nil]
  | cons round _ ih =>
      obtain ⟨m, _, _, block⟩ := round
      rw [ih, processes_of_block block, List.append_assoc, List.map_cons, List.singleton_append]

/-- In front of the instances there are comments and messages only. -/
theorem start_of_process {p : Instance} {st st' : TrState}
    (run : exec (sTranslateProcessInPlace env p) st = (.ok (), st')) :
    ∃ start : TrState, start.lines = st.lines ∧ start.events = st.events ∧
      exec (sTranslateProcessRec env p p.unbound [env.getName p.uid] p.mapping) start =
        (.ok (), st') := by
  rw [process_inPlace, process_eq] at run
  have comment (args : List Arg) (f : Unit → Tr Unit) :
      exec (commentln args >>= f) st = exec (f ()) (st.write (.comment args)) := rfl
  rw [comment] at run
  dsimp only at run
  split at run
  · unfold msg at run
    split at run
    · exact ⟨_, (TrState.lines_message _ _ _).trans (TrState.lines_comment _ _), rfl, run⟩
    · exact ⟨_, TrState.lines_comment _ _, rfl, run⟩
  · exact ⟨_, TrState.lines_comment _ _, rfl, run⟩

/-- `s_translate_process`, which overwrites its copies of the prefix and the mapping,
translates one instance for each tuple of the product of the ranges of the open
parameters, in lexicographic order, and nothing else; the instances have different
names. -/
theorem instances_enumerated {p : Instance} (distinct : p.parameters.Nodup) {st st' : TrState}
    (run : exec (sTranslateProcessInPlace env p) st = (.ok (), st')) :
    ∃ values : List (List Int), values.Pairwise (List.Lex (· < ·)) ∧
      (∀ v, v ∈ values ↔ InProduct env p (openParameters p) v) ∧
      (∀ v ∈ values, ∀ v' ∈ values, instanceName env p v = instanceName env p v' → v = v') ∧
      (∃ start, start.lines = st.lines ∧ start.events = st.events ∧
        Rounds (InstanceRound env p) start values st') ∧
      pickedLines isProcess st' =
        pickedLines isProcess st ++ values.map fun v => .process (instanceName env p v) := by
  have counted : ∀ v ∈ products env p (openParameters p), v.length = (openParameters p).length :=
    fun v inside => (mem_tuples.mp inside).length_eq
  have nodup : (openParameters p).Nodup :=
    (List.reverse_perm _).nodup_iff.mpr (distinct.sublist (List.take_sublist _ _))
  obtain ⟨start, lines, events, run⟩ := start_of_process run
  have rounds : Rounds (InstanceRound env p) start (products env p (openParameters p)) st' := by
    refine (processRec_rounds run).imp fun v inside s s' run => ?_
    exact ⟨_, boundTo_instance nodup (counted v inside), run,
      instance_own (List.cons_ne_nil _ _) p _ run⟩
  refine ⟨products env p (openParameters p), ?_, fun v => mem_products, ?_, ⟨start, lines, events, rounds⟩, ?_⟩
  · exact pairwise_tuples (fun s _ => pairwise_rangeOf s p) _ _
  · exact fun v inside v' inside' same =>
      instanceName_injective (counted v inside) (counted v' inside') same
  · rw [processes_of_rounds rounds]
    unfold pickedLines
    rw [lines]

end

/-! ## A process with two open parameters -/

/-- `process P(const int[0,1] i, const int[1,2] j)` with a variable `x`. -/
def openEnv : Env :=
  envOfSymbols [⟨"t(0)", .prim .clock, false, some ⟨none⟩⟩, ⟨"P", .prim .unknown, false, none⟩,
    ⟨"i", range 0 1, true, none⟩, ⟨"j", range 1 2, true, none⟩, ⟨"A", .prim .location, true, none⟩,
    ⟨"x", .prim .clock, true, some ⟨none⟩⟩]
where
  range (lower upper : Int) : Ty :=
    .pre .constant (.range (.prim .int) (.constant lower (.prim .int)) (.constant upper (.prim .int)))

def openProcess : Instance :=
  { uid := 1, parameters := [2, 3], mapping := ∅, unbound := 2
    templ := { vars := [5], iodecl := [], functions := [], init := 4, states := [⟨4, none⟩], edges := [] } }

/-- The last parameter is that of the outermost loop. -/
theorem instances_enumerated_two :
    ∃ values : List (List Int), values.Pairwise (List.Lex (· < ·)) ∧
      (∀ v, v ∈ values ↔ InProduct openEnv openProcess [3, 2] v) ∧
      pickedLines isProcess (exec (sTranslateProcessInPlace openEnv openProcess) TrState.initial).2 =
        values.map fun v => .process (instanceName openEnv openProcess v) := by
  have distinct : openProcess.parameters.Nodup := by decide
  obtain ⟨values, sorted, inside, _, _, lines⟩ :=
    @instances_enumerated openEnv openProcess distinct TrState.initial _ (Prod.ext rfl rfl)
  exact ⟨values, sorted, inside, lines⟩

end Utot
