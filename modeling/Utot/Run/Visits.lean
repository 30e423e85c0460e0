import Utot.Run.Declarations
import Utot.Translate.Processes

/-!
# The edges a translation visits

Which edges of which instances the loops over processes, open parameters and
select variables reach, and how a property of the tables is carried through
these loops.
-/

namespace Utot

open Utap Library Tchecker

/-! ## Visits -/

/-- The values the loops of `s_translate_edge_with_select` give to select variables. -/
inductive Selects (env : Env) : List Symbol → Instance → Instance → Prop where
  | done (p : Instance) : Selects env [] p p
  | bind {sel : Symbol} {rest : List Symbol} {p q : Instance} {min max i : Int}
      (bounds : enumerationBounds env p sel = .ok (min, max)) (lower : min ≤ i) (upper : i ≤ max)
      (later : Selects env rest (bindConstant p sel i) q) : Selects env (sel :: rest) p q

/-- The values the loops of `s_translate_process_rec` give to open parameters. -/
inductive Instantiates (env : Env) (p : Instance) :
    Nat → ContextPrefix → Mapping → ContextPrefix → Mapping → Prop where
  | done (ctx : ContextPrefix) (m : Mapping) : Instantiates env p 0 ctx m ctx m
  | bind {n : Nat} {s : Symbol} {ctx ctx' : ContextPrefix} {m m' : Mapping} {min max i : Int}
      (parameter : p.parameters[n]? = some s)
      (bounds : enumerationBounds env p s = .ok (min, max)) (lower : min ≤ i) (upper : i ≤ max)
      (later : Instantiates env p n (ctx ++ [sAssignmentToString env s i])
        (m.insert s (Expr.createConstant i)) ctx' m') :
      Instantiates env p (n + 1) ctx m ctx' m'

/-- An instance of a process with all its parameters bound, and its prefix. -/
def InstanceOf (env : Env) (p : Instance) (ctx : ContextPrefix) (q : Instance) : Prop :=
  ∃ m, Instantiates env p p.unbound [env.getName p.uid] p.mapping ctx m ∧ q = mergeMapping p m

/-- What is visited in one instance: an edge, with its select variables bound. -/
def VisitIn (env : Env) (r q : Instance) (e : Edge) : Prop :=
  e ∈ r.templ.edges ∧ Selects env e.select r q

/-- What a translation visits. -/
def Visit (env : Env) (processes : List Instance) (ctx : ContextPrefix) (q : Instance)
    (e : Edge) : Prop :=
  ∃ p ∈ processes, ∃ r, InstanceOf env p ctx r ∧ VisitIn env r q e

/-! ## Frames -/

/-- The tables of events are left alone. -/
def eventsFrame : Frame TrState where
  rel s s' := s'.events = s.events
  refl _ := rfl
  trans first second := second.trans first

theorem keepsEvents_write (o : Output) : Keeps eventsFrame (write o) := fun _ => rfl

theorem keepsEvents_writeLine (l : Line) : Keeps eventsFrame (writeLine l) := fun _ => rfl

theorem keepsEvents_msg (verboseLevel level : Nat) (args : List Arg) :
    Keeps eventsFrame (msg verboseLevel level args) :=
  keeps_msg (fun _ _ _ => rfl) verboseLevel level args

theorem keepsEvents_edge (process src tgt event : String) (attr : Attributes) :
    Keeps eventsFrame (edge process src tgt event attr) := by
  refine Keeps.bind Keeps.read fun s => ?_
  dsimp only
  split
  · exact Keeps.bind (keepsEvents_write _) fun _ => Keeps.bind (keepsEvents_writeLine _) fun _ =>
      Keeps.bind (Keeps.update fun _ => rfl) fun _ => keepsEvents_writeLine _
  · exact keepsEvents_writeLine _

theorem keepsEvents_states (env : Env) (ctx : ContextPrefix) (p : Instance) :
    Keeps eventsFrame (sTranslateStates env ctx p) :=
  Keeps.forM fun _ _ => Keeps.bind (Keeps.lift _) fun _ => keepsEvents_writeLine _

/-- Everything `s_translate_process` does before the edges. -/
theorem keepsEvents_declarations (env : Env) (p : Option Instance) (ctx : ContextPrefix)
    (decl : Declarations) : Keeps eventsFrame (translateDeclarations env p ctx decl) :=
  keeps_translateDeclarations (fun _ _ (_ : IsDeclaration _) => rfl) env p fun _ _ _ => trivial

/-! ## The loops -/

section

variable {env : Env} {R : Frame TrState}

/-- The edges of an instance stay within a frame if each visit does. -/
theorem keeps_edgeWithSelect (e : Edge) (ctx : ContextPrefix) (select : List Symbol) (p : Instance)
    (visit : ∀ q, Selects env select p q → Keeps R (sTranslateEdge env e ctx q)) :
    Keeps R (sTranslateEdgeWithSelect env e ctx select p) := by
  induction select generalizing p with
  | nil => exact visit p (.done p)
  | cons sel rest ih =>
      exact Keeps.liftBind fun bounds same => keeps_forRange fun i lower upper =>
        ih _ fun q later => visit q (.bind same lower upper later)

/-- A process stays within a frame if each of its instances does. -/
theorem keeps_processRec (p : Instance) (n : Nat) (ctx : ContextPrefix) (m : Mapping)
    (inst : ∀ ctx' m', Instantiates env p n ctx m ctx' m' →
      Keeps R (sTranslateInstance env ctx' p m')) :
    Keeps R (sTranslateProcessRec env p n ctx m) := by
  induction n generalizing ctx m with
  | zero => exact inst ctx m (.done ctx m)
  | succ n ih =>
      exact Keeps.liftBind fun s found => Keeps.liftBind fun bounds same =>
        keeps_forRange fun i lower upper => ih _ _ fun ctx' m' later =>
          inst ctx' m' (.bind (orAssert_eq_ok.mp found) same lower upper later)

end

section Loops

variable {env : Env} {J : GlobalEvents → Prop} {T : Frame GlobalEvents}
  {C : ContextPrefix → Instance → Edge → GlobalEvents → Prop}

/-- Changes of the tables within `T`. -/
abbrev tablesFrame (T : Frame GlobalEvents) : Frame TrState := T.onPart TrState.events

/-- What leaves the tables alone is within every frame of the tables. -/
theorem keeps_tables {α : Type} {m : Tr α} (keeps : Keeps eventsFrame m) : Keeps (tablesFrame T) m :=
  keeps.weaken fun s s' same => by
    change T.rel s.events s'.events
    rw [show s'.events = s.events from same]
    exact T.refl _

/-- What leaves the tables alone keeps a property of the tables. -/
theorem spec_unchanged {α : Type} {m : Tr α} (keeps : Keeps eventsFrame m) :
    Spec (fun s => J s.events) m (fun _ s => J s.events) fun _ => True :=
  (keeps.spec fun s s' same holds => by
    rw [show s'.events = s.events from same]
    exact holds).weaken (fun _ pre => pre) (fun _ _ post => post) fun _ _ => trivial

/-- A loop over an interval achieves what each of its rounds does. -/
theorem forRange_each {min max : Int} {body : Int → Tr Unit} {D : Int → GlobalEvents → Prop}
    (round : ∀ i, min ≤ i → i ≤ max → Spec (fun s => J s.events) (body i)
      (fun _ s => J s.events ∧ D i s.events) fun _ => True)
    (keeps : ∀ i, min ≤ i → i ≤ max → Keeps (tablesFrame T) (body i))
    (stable : ∀ i events events', T.rel events events' → D i events → D i events') :
    Spec (fun s => J s.events) (forRange min max body)
      (fun _ s => J s.events ∧ ∀ i, min ≤ i → i ≤ max → D i s.events) fun _ => True := by
  refine Spec.bind (Q := fun _ s => J s.events ∧ ∀ i, min ≤ i → i ≤ max → D i s.events) ?_
    fun _ => ?_
  · refine (Spec.forM_each (R := tablesFrame T) (C := fun i s => D i s.events)
      (fun i listed => round i (mem_intRange.mp listed).1 (mem_intRange.mp listed).2)
      (fun i listed => keeps i (mem_intRange.mp listed).1 (mem_intRange.mp listed).2)
      fun i _ s s' => stable i s.events s'.events).weaken (fun _ pre => pre)
      (fun _ s post => ⟨post.1, ?_⟩) fun _ failed => failed
    exact fun i lower upper => post.2 i (mem_intRange.mpr ⟨lower, upper⟩)
  · split
    · exact Spec.lift (fun _ _ _ failed => by cases failed) fun _ _ _ _ => trivial
    · exact Spec.ret _ fun _ post => post

theorem select_each (e : Edge) (ctx : ContextPrefix) (select : List Symbol) (p : Instance)
    (stable : ∀ ctx q e events events', T.rel events events' → C ctx q e events →
      C ctx q e events')
    (keeps : ∀ q, Keeps (tablesFrame T) (sTranslateEdge env e ctx q))
    (visit : ∀ q, Selects env select p q → Spec (fun s => J s.events) (sTranslateEdge env e ctx q)
      (fun _ s => J s.events ∧ C ctx q e s.events) fun _ => True) :
    Spec (fun s => J s.events) (sTranslateEdgeWithSelect env e ctx select p)
      (fun _ s => J s.events ∧ ∀ q, Selects env select p q → C ctx q e s.events)
      fun _ => True := by
  induction select generalizing p with
  | nil =>
      refine (visit p (.done p)).weaken (fun _ pre => pre) (fun _ s post => ⟨post.1, ?_⟩)
        fun _ failed => failed
      rintro q ⟨⟩
      exact post.2
  | cons sel rest ih =>
      refine Spec.liftBind (fun bounds same => ?_) fun _ _ => trivial
      obtain ⟨min, max⟩ := bounds
      refine (forRange_each (T := T)
        (D := fun i events => ∀ q, Selects env rest (bindConstant p sel i) q → C ctx q e events)
        (fun i lower upper => ih _ fun q later => visit q (.bind same lower upper later))
        (fun i _ _ => keeps_edgeWithSelect e ctx rest _ fun q _ => keeps q)
        fun i events events' within done q later =>
          stable ctx q e events events' within (done q later)).weaken
        (fun _ pre => pre) (fun _ s post => ⟨post.1, ?_⟩) fun _ failed => failed
      rintro q (_ | ⟨bounds', lower, upper, later⟩)
      rw [same] at bounds'
      cases bounds'
      exact post.2 _ lower upper q later

theorem instance_keeps (ctx : ContextPrefix) (p : Instance) (m : Mapping)
    (visit : ∀ q e, Keeps (tablesFrame T) (sTranslateEdge env e ctx q)) :
    Keeps (tablesFrame T) (sTranslateInstance env ctx p m) := by
  have finish : Keeps (tablesFrame T) (do
      writeLine (.process (stringOf ctx))
      translateDeclarations env (mergeMapping p m) ctx (mergeMapping p m).templ.toDeclarations
      sTranslateStates env ctx (mergeMapping p m)
      sTranslateEdges env ctx (mergeMapping p m)
      write .blank : Tr Unit) :=
    Keeps.bind (keeps_tables (keepsEvents_writeLine _)) fun _ =>
      Keeps.bind (keeps_tables (keepsEvents_declarations _ _ _ _)) fun _ =>
        Keeps.bind (keeps_tables (keepsEvents_states _ _ _)) fun _ =>
          Keeps.bind (Keeps.forM fun e _ => keeps_edgeWithSelect e ctx _ _ fun q _ => visit q e) fun _ =>
            (keeps_tables (keepsEvents_write _))
  refine Keeps.bind (Keeps.update fun s => T.refl s.events) fun _ =>
    Keeps.bind (Keeps.lift _) fun _ => ?_
  dsimp only
  split
  · exact Keeps.bind (keeps_tables (keepsEvents_write _)) fun _ => finish
  · exact finish

theorem instance_each (ctx : ContextPrefix) (p : Instance) (m : Mapping)
    (stable : ∀ ctx q e events events', T.rel events events' → C ctx q e events →
      C ctx q e events')
    (keeps : ∀ ctx q e, Keeps (tablesFrame T) (sTranslateEdge env e ctx q))
    (visit : ∀ q e, VisitIn env (mergeMapping p m) q e →
      Spec (fun s => J s.events) (sTranslateEdge env e ctx q)
        (fun _ s => J s.events ∧ C ctx q e s.events) fun _ => True) :
    Spec (fun s => J s.events) (sTranslateInstance env ctx p m)
      (fun _ s => J s.events ∧ ∀ q e, VisitIn env (mergeMapping p m) q e → C ctx q e s.events)
      fun _ => True := by
  let done (s : TrState) : Prop :=
    J s.events ∧ ∀ q e, VisitIn env (mergeMapping p m) q e → C ctx q e s.events
  have edges : Spec (fun s => J s.events) (sTranslateEdges env ctx (mergeMapping p m))
      (fun _ => done) fun _ => True := by
    refine (Spec.forM_each (R := tablesFrame T)
      (C := fun (e : Edge) s =>
        ∀ q, Selects env e.select (mergeMapping p m) q → C ctx q e s.events)
      (fun e listed => select_each e ctx e.select _ stable (fun q => keeps ctx q e)
        fun q selected => visit q e ⟨listed, selected⟩)
      (fun e _ => keeps_edgeWithSelect e ctx _ _ fun q _ => keeps ctx q e)
      fun e _ s s' within kept q selected =>
        stable ctx q e s.events s'.events within (kept q selected)).weaken (fun _ pre => pre)
      (fun _ s post => ⟨post.1, ?_⟩) fun _ failed => failed
    exact fun q e inside => post.2 e inside.1 q inside.2
  have finish : Spec (fun s => J s.events) (do
      writeLine (.process (stringOf ctx))
      translateDeclarations env (mergeMapping p m) ctx (mergeMapping p m).templ.toDeclarations
      sTranslateStates env ctx (mergeMapping p m)
      sTranslateEdges env ctx (mergeMapping p m)
      write .blank : Tr Unit) (fun _ => done) (fun _ => True) :=
    Spec.bind (spec_unchanged (keepsEvents_writeLine _)) fun _ =>
      Spec.bind (spec_unchanged (keepsEvents_declarations _ _ _ _)) fun _ =>
        Spec.bind (spec_unchanged (keepsEvents_states _ _ _)) fun _ =>
          Spec.bind edges fun _ => Spec.update fun _ post => post
  refine Spec.bind (Q := fun _ s => J s.events) (Spec.update fun _ pre => pre) fun _ =>
    Spec.bind (Q := fun _ s => J s.events) (Spec.lift (fun _ pre _ _ => pre) fun _ _ _ _ => trivial)
      fun _ => ?_
  dsimp only
  split
  · exact Spec.bind (spec_unchanged (keepsEvents_write _)) fun _ => finish
  · exact finish

theorem processRec_keeps (p : Instance) (n : Nat) (ctx : ContextPrefix) (m : Mapping)
    (visit : ∀ ctx q e, Keeps (tablesFrame T) (sTranslateEdge env e ctx q)) :
    Keeps (tablesFrame T) (sTranslateProcessRec env p n ctx m) :=
  keeps_processRec p n ctx m fun ctx' m' _ => instance_keeps ctx' p m' (visit ctx')

theorem processRec_each (p : Instance) (n : Nat) (ctx : ContextPrefix) (m : Mapping)
    (stable : ∀ ctx q e events events', T.rel events events' → C ctx q e events →
      C ctx q e events')
    (keeps : ∀ ctx q e, Keeps (tablesFrame T) (sTranslateEdge env e ctx q))
    (visit : ∀ ctx' m' q e, Instantiates env p n ctx m ctx' m' →
      VisitIn env (mergeMapping p m') q e →
      Spec (fun s => J s.events) (sTranslateEdge env e ctx' q)
        (fun _ s => J s.events ∧ C ctx' q e s.events) fun _ => True) :
    Spec (fun s => J s.events) (sTranslateProcessRec env p n ctx m)
      (fun _ s => J s.events ∧ ∀ ctx' m' q e, Instantiates env p n ctx m ctx' m' →
        VisitIn env (mergeMapping p m') q e → C ctx' q e s.events) fun _ => True := by
  induction n generalizing ctx m with
  | zero =>
      refine (instance_each ctx p m stable keeps fun q e => visit ctx m q e (.done ctx m)).weaken
        (fun _ pre => pre) (fun _ s post => ⟨post.1, ?_⟩) fun _ failed => failed
      rintro ctx' m' q e ⟨⟩ inside
      exact post.2 q e inside
  | succ n ih =>
      refine Spec.liftBind (fun s found => ?_) fun _ _ => trivial
      refine Spec.liftBind (fun bounds same => ?_) fun _ _ => trivial
      have parameter : p.parameters[n]? = some s := orAssert_eq_ok.mp found
      obtain ⟨min, max⟩ := bounds
      refine (forRange_each (T := T)
        (D := fun i events => ∀ ctx' m' q e, Instantiates env p n
          (ctx ++ [sAssignmentToString env s i]) (m.insert s (Expr.createConstant i)) ctx' m' →
          VisitIn env (mergeMapping p m') q e → C ctx' q e events)
        (fun i lower upper => ih _ _ fun ctx' m' q e later =>
          visit ctx' m' q e (.bind parameter same lower upper later))
        (fun i _ _ => processRec_keeps p n _ _ keeps)
        fun i events events' within done ctx' m' q e later inside =>
          stable ctx' q e events events' within (done ctx' m' q e later inside)).weaken
        (fun _ pre => pre) (fun _ _ post => ⟨post.1, ?_⟩) fun _ failed => failed
      rintro ctx' m' q e (_ | ⟨parameter', bounds', lower, upper, later⟩) inside
      rw [parameter] at parameter'
      cases parameter'
      rw [same] at bounds'
      cases bounds'
      exact post.2 _ lower upper ctx' m' q e later inside

theorem process_eq (p : Instance) :
    sTranslateProcess env p = (do
      commentln [.text "compilation of process ", .text (env.getName p.uid)]
      if 0 < p.unbound then
        msg env.verboseLevel vlInfo
          [.text "enumerating values of parameters for partially instantiated process '",
            .text (env.getName p.uid), .text "'.\n"]
      sTranslateProcessRec env p p.unbound [env.getName p.uid] p.mapping) := by
  unfold sTranslateProcess
  by_cases someOpen : 0 < p.unbound
  · simp only [someOpen, if_true]
  · have none : p.unbound = 0 := by omega
    simp only [none, lt_irrefl, if_false, sTranslateProcessRec]

theorem process_keeps (p : Instance)
    (visit : ∀ ctx q e, Keeps (tablesFrame T) (sTranslateEdge env e ctx q)) :
    Keeps (tablesFrame T) (sTranslateProcess env p) := by
  rw [process_eq]
  refine Keeps.bind (keeps_tables (keepsEvents_write _)) fun _ => ?_
  split
  · exact Keeps.bind (keeps_tables (keepsEvents_msg _ _ _)) fun _ =>
      processRec_keeps p _ _ _ visit
  · exact processRec_keeps p _ _ _ visit

/-- The translation of all processes achieves what each visit does. -/
theorem processes_each (processes : List Instance)
    (stable : ∀ ctx q e events events', T.rel events events' → C ctx q e events →
      C ctx q e events')
    (keeps : ∀ ctx q e, Keeps (tablesFrame T) (sTranslateEdge env e ctx q))
    (visit : ∀ ctx q e, Visit env processes ctx q e →
      Spec (fun s => J s.events) (sTranslateEdge env e ctx q)
        (fun _ s => J s.events ∧ C ctx q e s.events) fun _ => True) :
    Spec (fun s => J s.events) (processes.forM (sTranslateProcess env))
      (fun _ s => J s.events ∧ ∀ ctx q e, Visit env processes ctx q e → C ctx q e s.events)
      fun _ => True := by
  refine (Spec.forM_each (R := tablesFrame T)
    (C := fun (p : Instance) s => ∀ ctx r q e, InstanceOf env p ctx r → VisitIn env r q e →
      C ctx q e s.events)
    (fun p listed => ?_) (fun p _ => process_keeps p keeps) ?_).weaken (fun _ pre => pre)
    (fun _ s post => ⟨post.1, ?_⟩) fun _ failed => failed
  · have whole : Spec (fun s => J s.events)
        (sTranslateProcessRec env p p.unbound [env.getName p.uid] p.mapping)
        (fun _ s => J s.events ∧ ∀ ctx r q e, InstanceOf env p ctx r → VisitIn env r q e →
          C ctx q e s.events) (fun _ => True) := by
      refine (processRec_each p p.unbound [env.getName p.uid] p.mapping stable keeps
        fun ctx m q e inst inside => visit ctx q e ⟨p, listed, _, ⟨m, inst, rfl⟩, inside⟩).weaken
        (fun _ pre => pre) (fun _ s post => ⟨post.1, ?_⟩) fun _ failed => failed
      rintro ctx _ q e ⟨m, inst, rfl⟩ inside
      exact post.2 ctx m q e inst inside
    rw [process_eq]
    refine Spec.bind (spec_unchanged (keepsEvents_write _)) fun _ => ?_
    split
    · exact Spec.bind (spec_unchanged (keepsEvents_msg _ _ _)) fun _ => whole
    · exact whole
  · intro p _ s s' within done ctx r q e inst inside
    exact stable ctx q e s.events s'.events within (done ctx r q e inst inside)
  · rintro ctx q e ⟨p, listed, r, inst, inside⟩
    exact post.2 p listed ctx r q e inst inside

end Loops

end Utot
