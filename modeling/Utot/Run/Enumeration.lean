import Utot.Run.Instances
import Utot.Run.Endings

/-!
# The lines of a whole run

What the loops over processes, open parameters, edges and select variables visit,
as a list, and the lines they add: one edge line for each visit and one location
line for each location of each instance, in the order of the list.
-/

namespace Utot

open Utap Library Tchecker

/-! ## What is visited -/

/-- An edge of an instance with its select variables bound. -/
structure Visited where
  ctx : ContextPrefix
  inst : Instance
  edge : Edge

/-- The tuples of values of the open parameters, in the order of the loops. -/
abbrev instanceValues (env : Env) (p : Instance) : List (List Int) := products env p (openParameters p)

/-- The instances of the processes with their prefixes. -/
def instances (env : Env) (processes : List Instance) : List (ContextPrefix × Instance) :=
  processes.flatMap fun p => (instanceValues env p).map fun values =>
    (prefixOf env p values, instanceWith p values)

def visitsIn (env : Env) (ctx : ContextPrefix) (r : Instance) : List Visited :=
  r.templ.edges.flatMap fun e => (selections env e.select r).map fun values =>
    ⟨ctx, bindTuple bindConstant e.select r values, e⟩

def visits (env : Env) (processes : List Instance) : List Visited :=
  (instances env processes).flatMap fun i => visitsIn env i.1 i.2

section

variable {env : Env}

/-- The loops over open parameters run through the product of their ranges. -/
theorem instantiates_iff {p : Instance} {n : Nat} {ctx ctx' : ContextPrefix} {m m' : Mapping} :
    Instantiates env p n ctx m ctx' m' ↔ n ≤ p.parameters.length ∧ ∃ values ∈ products env p (p.parameters.take n).reverse,
      ctx' = ctx ++ List.zipWith (sAssignmentToString env) (p.parameters.take n).reverse values ∧
      m' = bindAll m ((p.parameters.take n).reverse.zip values) := by
  induction n generalizing ctx m with
  | zero =>
      constructor
      · rintro ⟨⟩
        exact ⟨Nat.zero_le _, [], List.mem_singleton_self _, by simp, by simp [bindAll]⟩
      · rintro ⟨_, values, _, rfl, rfl⟩
        rw [List.take_zero, List.reverse_nil, List.zipWith_nil_left, List.append_nil]
        exact .done _ _
  | succ n ih =>
      have next {s : Symbol} (found : p.parameters[n]? = some s) :
          (p.parameters.take (n + 1)).reverse = s :: (p.parameters.take n).reverse := by
        rw [List.take_add_one, found]
        simp
      constructor
      · rintro (_ | ⟨found, bounds, lower, upper, later⟩)
        rename_i s min max i
        obtain ⟨_, values, listed, names, bound⟩ := ih.mp later
        refine ⟨(List.getElem?_eq_some_iff.mp found).1, i :: values, ?_, ?_, ?_⟩
        · rw [next found, mem_products]
          exact .cons ⟨min, max, bounds, lower, upper⟩ (mem_products.mp listed)
        · rw [names, next found, List.zipWith_cons_cons, List.append_assoc, List.singleton_append]
        · rw [bound, next found]
          rfl
      · rintro ⟨enough, values, listed, names, bound⟩
        have found : p.parameters[n]? = some p.parameters[n] := List.getElem?_eq_getElem enough
        rw [next found] at listed names bound
        cases mem_products.mp listed with
        | cons within later =>
            obtain ⟨min, max, bounds, lower, upper⟩ := within
            rename_i i values
            rw [List.zipWith_cons_cons, ← List.singleton_append, ← List.append_assoc] at names
            exact .bind found bounds lower upper
              (ih.mpr ⟨Nat.le_of_lt enough, values, mem_products.mpr later, names, bound⟩)

/-- The loops over select variables run through their tuples. -/
theorem selects_iff {select : List Symbol} {r q : Instance} : Selects env select r q ↔
    ∃ values ∈ selections env select r, q = bindTuple bindConstant select r values := by
  constructor
  · intro selects
    induction selects with
    | done r => exact ⟨[], List.mem_singleton_self _, rfl⟩
    | bind bounds lower upper _ ih =>
        obtain ⟨values, listed, rfl⟩ := ih
        exact ⟨_ :: values, mem_selections.mpr (.cons bounds lower upper (mem_selections.mp listed)), rfl⟩
  · rintro ⟨values, listed, rfl⟩
    have inside := mem_selections.mp listed
    clear listed
    induction inside with
    | nil => exact .done _
    | cons bounds lower upper _ ih => exact .bind bounds lower upper ih

theorem mem_visitsIn {ctx : ContextPrefix} {r : Instance} {v : Visited} :
    v ∈ visitsIn env ctx r ↔ v.ctx = ctx ∧ VisitIn env r v.inst v.edge := by
  obtain ⟨ctx', q, e⟩ := v
  unfold visitsIn VisitIn
  rw [List.mem_flatMap]
  constructor
  · rintro ⟨e', listed, inside⟩
    obtain ⟨values, selected, same⟩ := List.mem_map.mp inside
    cases same
    exact ⟨rfl, listed, selects_iff.mpr ⟨values, selected, rfl⟩⟩
  · rintro ⟨rfl, listed, selects⟩
    obtain ⟨values, selected, same⟩ := selects_iff.mp selects
    exact ⟨e, listed, List.mem_map.mpr ⟨values, selected, by rw [← same]⟩⟩

theorem instanceOf_iff {p q : Instance} {ctx : ContextPrefix} : InstanceOf env p ctx q ↔
    p.unbound ≤ p.parameters.length ∧ ∃ values ∈ instanceValues env p,
      ctx = prefixOf env p values ∧ q = instanceWith p values := by
  constructor
  · rintro ⟨m, inst, rfl⟩
    obtain ⟨enough, values, listed, names, bound⟩ := instantiates_iff.mp inst
    exact ⟨enough, values, listed, names, by rw [bound]; rfl⟩
  · rintro ⟨enough, values, listed, rfl, rfl⟩
    exact ⟨_, instantiates_iff.mpr ⟨enough, values, listed, rfl, rfl⟩, rfl⟩

/-- The list holds what the loops visit, where no process has more open parameters
than parameters. -/
theorem mem_visits {processes : List Instance}
    (enough : ∀ p ∈ processes, p.unbound ≤ p.parameters.length) {v : Visited} :
    v ∈ visits env processes ↔ Visit env processes v.ctx v.inst v.edge := by
  unfold visits instances Visit
  rw [List.mem_flatMap]
  constructor
  · rintro ⟨i, listed, inside⟩
    obtain ⟨p, member, one⟩ := List.mem_flatMap.mp listed
    obtain ⟨values, inRanges, rfl⟩ := List.mem_map.mp one
    obtain ⟨names, visited⟩ := mem_visitsIn.mp inside
    exact ⟨p, member, _, instanceOf_iff.mpr ⟨enough p member, values, inRanges, names, rfl⟩, visited⟩
  · rintro ⟨p, member, r, inst, visited⟩
    obtain ⟨_, values, inRanges, names, rfl⟩ := instanceOf_iff.mp inst
    refine ⟨(prefixOf env p values, instanceWith p values), ?_, mem_visitsIn.mpr ⟨names, visited⟩⟩
    exact List.mem_flatMap.mpr ⟨p, member, List.mem_map.mpr ⟨values, inRanges, rfl⟩⟩

/-! ## Lines of a kind, instance by instance -/

variable {pick : Line → Bool}

/-- What each instance adds, the loops over open parameters add block by block. -/
theorem appends_processRec {p : Instance} {B : List Int → List Line → Prop} {n : Nat}
    {ctx : ContextPrefix} {m : Mapping}
    (inst : ∀ values ∈ products env p (p.parameters.take n).reverse,
      Appends (pickedLines pick) (sTranslateInstance env
        (ctx ++ List.zipWith (sAssignmentToString env) (p.parameters.take n).reverse values) p
        (bindAll m ((p.parameters.take n).reverse.zip values))) fun _ => B values) :
    Appends (pickedLines pick) (sTranslateProcessRec env p n ctx m) fun _ ls =>
      n ≤ p.parameters.length ∧
        ∃ blocks, List.Forall₂ B (products env p (p.parameters.take n).reverse) blocks ∧
          ls = blocks.flatten := by
  induction n generalizing ctx m B with
  | zero =>
      have single := inst [] (by simp [products, tuples])
      rw [List.take_zero, List.reverse_nil, List.zipWith_nil_left, List.append_nil] at single
      refine single.weaken fun _ ls block => ⟨Nat.zero_le _, [ls], ?_, by simp⟩
      exact .cons block .nil
  | succ n ih =>
      refine Appends.liftBind fun parameter found => Appends.liftBind fun bounds same => ?_
      obtain ⟨min, max⟩ := bounds
      have next : (p.parameters.take (n + 1)).reverse = parameter :: (p.parameters.take n).reverse := by
        rw [List.take_add_one, orAssert_eq_ok.mp found]
        simp
      have range : rangeOf env parameter p = intRange min max := by
        unfold rangeOf
        rw [same]
      rw [next] at inst ⊢
      have round (i : Int) (lower : min ≤ i) (upper : i ≤ max) : Appends (pickedLines pick)
          (sTranslateProcessRec env p n (ctx ++ [sAssignmentToString env parameter i])
            (m.insert parameter (Expr.createConstant i)))
          fun _ ls => ∃ blocks, List.Forall₂ (fun values => B (i :: values))
            (products env p (p.parameters.take n).reverse) blocks ∧ ls = blocks.flatten := by
        refine (ih (B := fun values => B (i :: values)) fun values listed => ?_).weaken
          fun _ _ block => block.2
        have one := inst (i :: values) (mem_products.mpr
          (.cons ⟨min, max, same, lower, upper⟩ (mem_products.mp listed)))
        rw [List.zipWith_cons_cons] at one
        rw [List.append_assoc, List.singleton_append]
        exact one
      have rounds := appends_forRange round
      refine rounds.weaken fun _ ls added => ⟨?_, ?_⟩
      · exact (List.getElem?_eq_some_iff.mp (orAssert_eq_ok.mp found)).1
      · obtain ⟨blocks, outer, rfl⟩ := added
        have listed : products env p (parameter :: (p.parameters.take n).reverse) =
            (intRange min max).flatMap fun i =>
              (products env p (p.parameters.take n).reverse).map (i :: ·) := by
          rw [products, tuples, range]
        rw [listed]
        apply exists_blocks
        refine outer.imp fun i ls added => ?_
        obtain ⟨inner, rows, rfl⟩ := added
        exact ⟨inner, List.forall₂_map_left_iff.mpr rows, rfl⟩

/-- What each instance adds, the loop over the processes adds block by block. -/
theorem appends_processes {processes : List Instance} {B : ContextPrefix → Instance → List Line → Prop}
    (inst : ∀ p ∈ processes, ∀ values ∈ instanceValues env p,
      Appends (pickedLines pick) (sTranslateInstance env (prefixOf env p values) p
        (bindAll p.mapping ((openParameters p).zip values))) fun _ =>
          B (prefixOf env p values) (instanceWith p values)) :
    Appends (pickedLines pick) (processes.forM (sTranslateProcess env)) fun _ ls =>
      (∀ p ∈ processes, p.unbound ≤ p.parameters.length) ∧
        ∃ blocks, List.Forall₂ (fun i => B i.1 i.2) (instances env processes) blocks ∧
          ls = blocks.flatten := by
  have process (p : Instance) (member : p ∈ processes) :
      Appends (pickedLines pick) (sTranslateProcess env p) fun _ ls =>
        p.unbound ≤ p.parameters.length ∧
          ∃ blocks, List.Forall₂ (fun values => B (prefixOf env p values) (instanceWith p values))
            (instanceValues env p) blocks ∧ ls = blocks.flatten := by
    rw [process_eq]
    have whole := @appends_processRec env pick p (fun values => B (prefixOf env p values) (instanceWith p values))
      p.unbound [env.getName p.uid] p.mapping (inst p member)
    refine Appends.silentBind (silent_commentln _) fun _ => ?_
    dsimp only
    split
    · exact Appends.silentBind (silent_message _ _ _) fun _ => whole
    · exact whole
  refine (Appends.forM process).weaken fun _ ls added => ?_
  obtain ⟨parts, rounds, rfl⟩ := added
  constructor
  · intro p member
    obtain ⟨_, _, enough, _⟩ := exists_of_forall₂ rounds member
    exact enough
  · apply exists_blocks
    refine rounds.imp fun p ls added => ?_
    obtain ⟨_, inner, rows, rfl⟩ := added
    exact ⟨inner, List.forall₂_map_left_iff.mpr rows, rfl⟩

/-- The lines of a kind no declaration has. -/
def Undeclared (pick : Line → Bool) : Prop :=
  (∀ id size, pick (.clock id size) = false) ∧
    ∀ min max init id size, pick (.intvar min max init id size) = false

theorem silent_declarations (undeclared : Undeclared pick) (p : Option Instance) (ctx : ContextPrefix)
    (decl : Declarations) :
    Keeps (sameOutput (pickedLines pick)) (translateDeclarations env p ctx decl) := by
  have writes (st : TrState) (o : Output) (written : DeclaresOnly (fun _ => True) o) :
      (sameOutput (pickedLines pick)).rel st (st.write o) := by
    cases o with
    | line l =>
        have other : pick l = false := by
          cases l with
          | clock id size => exact undeclared.1 id size
          | intvar min max init id size => exact undeclared.2 min max init id size
          | _ => cases written
        exact silent_writeLine other st
    | comment args => exact silent_commentln args st
    | message level args => exact congrArg (List.filter pick) (st.lines_message level args)
    | blank => cases written
  exact keeps_translateDeclarations writes env p fun _ _ _ => trivial

theorem appends_line (l : Line) : Appends (pickedLines pick) (writeLine l) fun _ ls => ls = [l].filter pick := by
  refine Appends.update ([l].filter pick) (fun st => ?_) rfl
  unfold pickedLines
  rw [TrState.lines_writeLine, List.filter_append]

/-- The lines an instance adds for its name, its declarations, its locations and its edges. -/
theorem appends_instance {ctx : ContextPrefix} {named : List Line}
    (process : [Line.process (stringOf ctx)].filter pick = named)
    {p : Instance} {m : Mapping} {D P Q : List Line → Prop}
    (declared : Appends (pickedLines pick) (translateDeclarations env (mergeMapping p m) ctx
      (mergeMapping p m).templ.toDeclarations) fun _ => D)
    (states : Appends (pickedLines pick) (sTranslateStates env ctx (mergeMapping p m)) fun _ => P)
    (edges : Appends (pickedLines pick) (sTranslateEdges env ctx (mergeMapping p m)) fun _ => Q) :
    Appends (pickedLines pick) (sTranslateInstance env ctx p m) fun _ ls =>
      ∃ front first second, D front ∧ P first ∧ Q second ∧ ls = named ++ (front ++ (first ++ second)) := by
  have finish : Appends (pickedLines pick) (do
      writeLine (.process (stringOf ctx))
      translateDeclarations env (mergeMapping p m) ctx (mergeMapping p m).templ.toDeclarations
      sTranslateStates env ctx (mergeMapping p m)
      sTranslateEdges env ctx (mergeMapping p m)
      write .blank : Tr Unit) fun _ ls =>
        ∃ front first second, D front ∧ P first ∧ Q second ∧ ls = named ++ (front ++ (first ++ second)) := by
    refine (appends_line _).bind fun _ start same => declared.bind fun _ front given =>
      states.bind fun _ first holds => edges.bind fun _ second holds' => ?_
    refine Appends.silent (Keeps.update fun st => congrArg (List.filter pick) st.lines_blank) fun _ => ?_
    exact ⟨front, first, second, given, holds, holds', by rw [List.append_nil, same, process]⟩
  refine Appends.silentBind (Keeps.update fun _ => rfl) fun _ => Appends.liftBind fun _ _ => ?_
  dsimp only
  split
  · exact Appends.silentBind (silent_commentln _) fun _ => finish
  · exact finish

/-- Everything up to the synchronisation vectors. -/
theorem appends_translateProcesses {sysname : String} {named : List Line}
    (system : [Line.system sysname].filter pick = named) {tas : TimedAutomataSystem}
    {G : List Line → Prop} {B : ContextPrefix → Instance → List Line → Prop}
    (globals : Appends (pickedLines pick) (translateDeclarations env none [] tas.globals) fun _ => G)
    (inst : ∀ p ∈ tas.processes, ∀ values ∈ instanceValues env p,
      Appends (pickedLines pick) (sTranslateInstance env (prefixOf env p values) p
        (bindAll p.mapping ((openParameters p).zip values))) fun _ =>
          B (prefixOf env p values) (instanceWith p values)) :
    Appends (pickedLines pick) (translateProcesses env sysname tas) fun _ ls =>
      (∀ p ∈ tas.processes, p.unbound ≤ p.parameters.length) ∧
        ∃ front blocks, G front ∧
          List.Forall₂ (fun i => B i.1 i.2) (instances env tas.processes) blocks ∧
            ls = named ++ (front ++ blocks.flatten) := by
  refine (appends_line _).bind fun _ start same => globals.bind fun _ front given =>
    Appends.silentBind ?_ fun _ => ?_
  · refine Keeps.branch (silent_commentln _) (Keeps.bind Keeps.read fun st => ?_)
    exact Keeps.bind (Keeps.lift _) fun _ => Keeps.update fun _ => rfl
  · refine (appends_processes inst).weaken fun _ ls added => ?_
    obtain ⟨enough, blocks, rounds, lines⟩ := added
    exact ⟨enough, front, blocks, given, rounds, by rw [lines, same, system]⟩

/-- The same for lines no declaration has. -/
theorem appends_undeclared (undeclared : Undeclared pick) (noSystem : ∀ id, pick (.system id) = false)
    (noProcess : ∀ id, pick (.process id) = false) {sysname : String} {tas : TimedAutomataSystem}
    {P Q : ContextPrefix → Instance → List Line → Prop}
    (states : ∀ ctx r, Appends (pickedLines pick) (sTranslateStates env ctx r) fun _ => P ctx r)
    (edges : ∀ ctx r, Appends (pickedLines pick) (sTranslateEdges env ctx r) fun _ => Q ctx r) :
    Appends (pickedLines pick) (translateProcesses env sysname tas) fun _ ls =>
      (∀ p ∈ tas.processes, p.unbound ≤ p.parameters.length) ∧
        ∃ blocks, List.Forall₂ (fun i ls => ∃ first second, P i.1 i.2 first ∧ Q i.1 i.2 second ∧
          ls = first ++ second) (instances env tas.processes) blocks ∧ ls = blocks.flatten := by
  have unpicked {l : Line} (other : pick l = false) : [l].filter pick = [] :=
    List.filter_cons_of_neg (Bool.eq_false_iff.mp other)
  have silent (p : Option Instance) (ctx : ContextPrefix) (decl : Declarations) :
      Appends (pickedLines pick) (translateDeclarations env p ctx decl) fun _ ls => ls = [] :=
    Appends.silent (silent_declarations undeclared p ctx decl) fun _ => rfl
  have inst (ctx : ContextPrefix) (p : Instance) (m : Mapping) :
      Appends (pickedLines pick) (sTranslateInstance env ctx p m) fun _ ls => ∃ first second,
        P ctx (mergeMapping p m) first ∧ Q ctx (mergeMapping p m) second ∧ ls = first ++ second := by
    refine (appends_instance (unpicked (noProcess _)) (silent _ _ _) (states _ _) (edges _ _)).weaken
      fun _ ls added => ?_
    obtain ⟨_, first, second, rfl, holds, holds', rfl⟩ := added
    exact ⟨first, second, holds, holds', rfl⟩
  have processes := appends_translateProcesses (B := fun ctx r ls => ∃ first second,
    P ctx r first ∧ Q ctx r second ∧ ls = first ++ second) (unpicked (noSystem sysname)) (silent none [] tas.globals)
    fun p _ values _ => inst (prefixOf env p values) p _
  refine processes.weaken fun _ ls added => ?_
  obtain ⟨enough, _, blocks, rfl, rounds, rfl⟩ := added
  exact ⟨enough, blocks, rounds, rfl⟩

end

/-! ## Location lines and edge lines -/

def isLocation : Line → Bool
  | .location _ _ _ => true
  | _ => false

/-- The line of a location of an instance. -/
inductive StateLine (env : Env) (ctx : ContextPrefix) (q : Instance) (s : State) : Line → Prop where
  | line {attr : Attributes} (attributes : stateAttributes env ctx q s = .ok attr) :
      StateLine env ctx q s (.location (stringOf ctx) (env.getName s.uid) attr.toList)

/-- The line of a visit. -/
abbrev VisitLine (env : Env) (v : Visited) : Line → Prop := EdgeLine env v.edge v.ctx v.inst

section

variable {env : Env} {sysname : String} {tas : TimedAutomataSystem}

/-- The locations of the instances. -/
def places (env : Env) (processes : List Instance) : List (ContextPrefix × Instance × State) :=
  (instances env processes).flatMap fun i => i.2.templ.states.map fun s => (i.1, i.2, s)

theorem appends_edges (ctx : ContextPrefix) (r : Instance) :
    Appends (pickedLines isEdge) (sTranslateEdges env ctx r) fun _ =>
      List.Forall₂ (VisitLine env) (visitsIn env ctx r) := by
  refine (Appends.forM fun e _ => appends_edgeWithSelect e.select r).weaken fun _ ls added => ?_
  obtain ⟨blocks, rounds, rfl⟩ := added
  apply forall₂_flatten
  refine rounds.imp fun e block lines => ?_
  rw [List.forall₂_map_left_iff]
  exact lines

theorem appends_states {pick : Line → Bool}
    (picked : ∀ process id attr, pick (.location process id attr) = true) (ctx : ContextPrefix) (r : Instance) :
    Appends (pickedLines pick) (sTranslateStates env ctx r) fun _ =>
      List.Forall₂ (StateLine env ctx r) r.templ.states := by
  have one (s : State) (_ : s ∈ r.templ.states) :
      Appends (pickedLines pick) (sTranslateState env ctx r s) fun _ =>
        List.Forall₂ (StateLine env ctx r) [s] := by
    refine Appends.liftBind fun attr attributes => ?_
    refine (appends_writeLine (picked _ _ _)).weaken fun _ ls same => ?_
    rw [same]
    exact .cons (.line attributes) .nil
  refine (Appends.forM one).weaken fun _ ls added => ?_
  obtain ⟨blocks, rounds, rfl⟩ := added
  have flat := forall₂_flatten (g := fun s => [s]) rounds
  rwa [List.flatMap_singleton'] at flat

/-- Edges add events and edges only. -/
theorem silent_translateEdge {pick : Line → Bool} (noEvent : ∀ id, pick (.event id) = false)
    (noEdge : ∀ process src tgt event attr, pick (.edge process src tgt event attr) = false)
    (e : Edge) (ctx : ContextPrefix) (q : Instance) :
    Keeps (sameOutput (pickedLines pick)) (sTranslateEdge env e ctx q) := by
  have update {f : TrState → TrState} (same : ∀ st, (f st).trace = st.trace) :
      Keeps (sameOutput (pickedLines pick)) (modify f : Tr Unit) :=
    Keeps.update fun st => by
      change List.filter pick (linesOf (f st).trace) = _
      rw [same]
      rfl
  have event (channel : Symbol) (reference : Expr) (ev s : String) :
      Keeps (sameOutput (pickedLines pick)) (declareEvent env channel reference ev s) := by
    refine Keeps.bind Keeps.read fun st => Keeps.branch ?_ (Keeps.ret _)
    have finish := Keeps.bind (@silent_writeLine pick (.event ev) (noEvent ev)) fun _ =>
      update (f := fun st => { st with
        events := { st.events with
          labels := st.events.labels.insert ev
          brodcasts :=
            if sIsBroadcast env channel then st.events.brodcasts.insert s else st.events.brodcasts } })
        fun _ => rfl
    exact Keeps.branch (Keeps.bind (silent_message _ _ _) fun _ => finish) finish
  have label : Keeps (sameOutput (pickedLines pick)) (edgeEvent env e ctx q) := by
    unfold edgeEvent
    split
    · exact Keeps.ret _
    · rename_i kind channel _
      unfold sBuildEdgeLabel
      dsimp only [Expr.getSymbol?]
      cases channel.getSymbol? with
      | none => exact Keeps.lift _
      | some symbol =>
          refine Keeps.bind (silent_message _ _ _) fun _ => Keeps.bind (Keeps.lift _) fun s => ?_
          have finish := Keeps.bind (event symbol (.sync kind channel) (eventOf kind s) s) fun _ =>
            Keeps.bind (update (f := fun st =>
              { st with events := recordEvent st.events kind s (stringOf ctx) }) fun _ => rfl) fun _ =>
                Keeps.ret (eventOf kind s)
          refine Keeps.branch (Keeps.bind ?_ fun _ => finish) finish
          refine Keeps.bind Keeps.read fun st => Keeps.branch ?_ (Keeps.ret _)
          exact Keeps.bind (silent_writeLine (noEvent s)) fun _ => update fun _ => rfl
    · exact Keeps.lift _
  have written (src tgt ev : String) (attr : Attributes) :
      Keeps (sameOutput (pickedLines pick)) (edge (stringOf ctx) src tgt ev attr) := by
    refine Keeps.bind Keeps.read fun st => Keeps.branch ?_ (silent_writeLine (noEdge _ _ _ _ _))
    refine Keeps.bind (silent_commentln _) fun _ => Keeps.bind (silent_writeLine (noEvent _)) fun _ => ?_
    exact Keeps.bind (update fun _ => rfl) fun _ => silent_writeLine (noEdge _ _ _ _ _)
  have finish : Keeps (sameOutput (pickedLines pick)) (do
      let ev ← edgeEvent env e ctx q
      let src ← fromExcept (endName env e.src)
      let tgt ← fromExcept (endName env e.dst)
      assertTr (e.actname == "SKIP" || e.actname == "") "e.actname == \"SKIP\" || e.actname == \"\""
      let attr ← fromExcept (edgeAttributes env e ctx q)
      edge (stringOf ctx) src tgt ev attr : Tr Unit) := by
    refine Keeps.bind label fun ev => Keeps.bind (Keeps.lift _) fun src => ?_
    refine Keeps.bind (Keeps.lift _) fun tgt => Keeps.bind (Keeps.lift _) fun _ => ?_
    exact Keeps.bind (Keeps.lift _) fun attr => written _ _ _ _
  exact Keeps.branch (Keeps.bind (silent_commentln _) fun _ => finish) finish

theorem silent_states {pick : Line → Bool}
    (noLocation : ∀ process id attr, pick (.location process id attr) = false)
    (ctx : ContextPrefix) (r : Instance) :
    Keeps (sameOutput (pickedLines pick)) (sTranslateStates env ctx r) :=
  Keeps.forM fun _ _ => Keeps.bind (Keeps.lift _) fun _ => silent_writeLine (noLocation _ _ _)

theorem silent_translateEdges {pick : Line → Bool} (noEvent : ∀ id, pick (.event id) = false)
    (noEdge : ∀ process src tgt event attr, pick (.edge process src tgt event attr) = false)
    (ctx : ContextPrefix) (r : Instance) :
    Keeps (sameOutput (pickedLines pick)) (sTranslateEdges env ctx r) :=
  Keeps.forM fun e _ => keeps_edgeWithSelect e _ _ _ fun q _ => silent_translateEdge noEvent noEdge e _ q

/-- What is written behind the processes. -/
theorem silent_ending {pick : Line → Bool} (noEnding : ∀ l, IsEnding (.line l) → pick l = false) :
    Keeps (sameOutput (pickedLines pick)) (do
      sDisplayTableOfEvents env
      sGenerateSyncVectors : Tr Unit) := by
  have message : ∀ (st : TrState) level args,
      pickedLines pick (st.write (.message level args)) = pickedLines pick st :=
    fun st level args => congrArg (List.filter pick) (st.lines_message level args)
  refine Keeps.bind (keeps_displayTable message env) fun _ => keeps_syncVectors ?_ fun _ _ _ => rfl
  intro st o ending
  cases o with
  | line l => exact silent_writeLine (noEnding l ending) st
  | comment args => exact silent_commentln args st
  | message level args => exact message st level args
  | blank => cases ending

/-- The edge lines of a translation are those of the visits, in their order. -/
theorem appends_edgeLines : Appends (pickedLines isEdge) (translateSystem env sysname tas) fun _ ls =>
    (∀ p ∈ tas.processes, p.unbound ≤ p.parameters.length) ∧
      List.Forall₂ (VisitLine env) (visits env tas.processes) ls := by
  have states (ctx : ContextPrefix) (r : Instance) :
      Appends (pickedLines isEdge) (sTranslateStates env ctx r) fun _ ls => ls = [] :=
    Appends.silent (silent_states (fun _ _ _ => rfl) _ _) fun _ => rfl
  refine (appends_undeclared ⟨fun _ _ => rfl, fun _ _ _ _ _ => rfl⟩ (fun _ => rfl) (fun _ => rfl)
    states appends_edges).bind fun _ ls added => ?_
  obtain ⟨enough, blocks, rounds, rfl⟩ := added
  refine Appends.silent (silent_ending fun l ending => ?_) fun _ => ?_
  · cases l <;> first | rfl | cases ending
  · rw [List.append_nil]
    refine ⟨enough, forall₂_flatten (rounds.imp fun i block added => ?_)⟩
    obtain ⟨_, second, rfl, lines, rfl⟩ := added
    exact lines

/-- The location lines in front of the vectors are those of the instances. -/
theorem appends_locationLines :
    Appends (pickedLines isLocation) (translateProcesses env sysname tas) fun _ ls =>
      List.Forall₂ (fun place l => StateLine env place.1 place.2.1 place.2.2 l)
        (places env tas.processes) ls := by
  have edges (ctx : ContextPrefix) (r : Instance) :
      Appends (pickedLines isLocation) (sTranslateEdges env ctx r) fun _ ls => ls = [] :=
    Appends.silent (silent_translateEdges (fun _ => rfl) (fun _ _ _ _ _ => rfl) _ _) fun _ => rfl
  refine (appends_undeclared ⟨fun _ _ => rfl, fun _ _ _ _ _ => rfl⟩ (fun _ => rfl) (fun _ => rfl)
    (appends_states fun _ _ _ => rfl) edges).weaken fun _ ls added => ?_
  obtain ⟨_, blocks, rounds, rfl⟩ := added
  apply forall₂_flatten
  refine rounds.imp fun i block added => ?_
  obtain ⟨first, _, lines, rfl, rfl⟩ := added
  rw [List.append_nil, List.forall₂_map_left_iff]
  exact lines

end

end Utot
