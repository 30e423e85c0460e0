import Mathlib.Data.Set.Lattice
import Utot.Library.Superposing
import Utot.Run.Verbosity
import Utot.Run.Tables

/-!
# Processes superpose

A process is translated alike behind any others, and what it adds to the output
does not depend on them, but for the `event` lines they share: a line that is
introduced once for all processes is counted with the first of them.
-/

namespace Utot

open Utap Library Tchecker

/-! ## One program from two states -/

/-- A relation between states that the steps of the translation of a process keep. -/
structure KeptByProcesses (env : Env) (R : TrState → TrState → Prop) : Prop extends SideBySide R where
  localEvent : ∀ label, Alike R (declareLocalEvent label) (declareLocalEvent label)
  event : ∀ channel reference ev s,
    Alike R (declareEvent env channel reference ev s) (declareEvent env channel reference ev s)
  record : ∀ kind s process, Alike R
    (modify fun st => { st with events := recordEvent st.events kind s process } : Tr Unit)
    (modify fun st => { st with events := recordEvent st.events kind s process })
  edge : ∀ process src tgt event attr,
    Alike R (edge process src tgt event attr) (edge process src tgt event attr)

section

variable {env : Env} {R : TrState → TrState → Prop}

section

variable (sides : SideBySide R) {p : Option Instance}

include sides

theorem twice_declareCell (name : String) (t : Ty) (init : Option Expr) :
    Alike R (declareCell env p name t init) (declareCell env p name t init) := by
  unfold declareCell
  split
  · exact alike_comment sides _
  · exact alike_comment sides _
  · exact alike_comment sides _
  · exact alike_line sides _
  · exact alike_integerVariable sides rfl name init rfl rfl

theorem twice_arrayElements (name : String) (t : Ty) (init : Option Expr) (S : List Int) :
    Alike R (sEnumerateArrayElementsDecl env p name t init S)
      (sEnumerateArrayElementsDecl env p name t init S) := by
  fun_induction sEnumerateArrayElementsDecl env p name t init S with
  | case1 sub size init S cells =>
      refine Alike.liftBind fun bounds _ => Alike.liftBind fun count _ => ?_
      have rows : Alike R
          (forRange bounds.1 bounds.2 fun i => do
            let cell ← fromExcept (initialCell init (i - bounds.1))
            sEnumerateArrayElementsDecl env p name sub cell (i :: S))
          (forRange bounds.1 bounds.2 fun i => do
            let cell ← fromExcept (initialCell init (i - bounds.1))
            sEnumerateArrayElementsDecl env p name sub cell (i :: S)) :=
        alike_forRange fun i _ => Alike.liftBind fun cell _ => cells i cell
      cases init with
      | none => exact rows
      | some e => exact Alike.branch (fun _ => Alike.liftBind fun _ _ => rows) fun _ => rows
  | case2 => exact twice_declareCell sides _ _ _

theorem twice_declareArray (vname : String) (t : Ty) (init : Option Expr) :
    Alike R (declareArray env p vname t init) (declareArray env p vname t init) := by
  refine Alike.liftBind fun answer _ => ?_
  cases answer with
  | none => exact twice_arrayElements sides vname t init []
  | some whole =>
      refine Alike.liftBind fun size _ => Alike.branch (fun _ => ?_) fun _ =>
        alike_oneDimArray sides rfl _ _ _ _
      exact Alike.bind (alike_comment sides _) fun _ => alike_line sides _

theorem twice_declareVariable (ctx : ContextPrefix) (s : Symbol) :
    Alike R (declareVariable env p ctx s) (declareVariable env p ctx s) := by
  have integer (vname : String) (t : Ty) (init : Option Expr) :
      Alike R (sOutputIntegerVariable env p vname t init) (sOutputIntegerVariable env p vname t init) :=
    alike_integerVariable sides rfl vname init rfl rfl
  refine Alike.bind (alike_comment sides _) fun _ => ?_
  dsimp only
  split
  · exact integer _ _ _
  · exact integer _ _ _
  · exact integer _ _ _
  · exact alike_comment sides _
  · exact alike_comment sides _
  · exact alike_comment sides _
  · exact alike_line sides _
  · exact twice_declareArray sides _ _ _
  · exact Alike.lift _

theorem twice_declarations (ctx : ContextPrefix) (decl : Declarations) :
    Alike R (translateDeclarations env p ctx decl) (translateDeclarations env p ctx decl) :=
  Alike.forM fun s _ => twice_declareVariable sides ctx s

end

variable (kept : KeptByProcesses env R)

include kept

theorem twice_edgeEvent (e : Edge) (ctx : ContextPrefix) (q : Instance) :
    Alike R (edgeEvent env e ctx q) (edgeEvent env e ctx q) := by
  unfold edgeEvent
  split
  · exact Alike.ret _
  · rename_i kind channel sync
    unfold sBuildEdgeLabel
    dsimp only [Expr.getSymbol?]
    cases channel.getSymbol? with
    | none => exact Alike.lift _
    | some symbol =>
        refine Alike.bind (alike_msg kept.toSideBySide _ _ _ _) fun _ => Alike.liftBind fun s _ => ?_
        have finish : Alike R (do
            declareEvent env symbol (.sync kind channel) (eventOf kind s) s
            modify fun st => { st with events := recordEvent st.events kind s (stringOf ctx) }
            pure (eventOf kind s) : Tr String) (do
            declareEvent env symbol (.sync kind channel) (eventOf kind s) s
            modify fun st => { st with events := recordEvent st.events kind s (stringOf ctx) }
            pure (eventOf kind s) : Tr String) :=
          Alike.bind (kept.event _ _ _ _) fun _ => Alike.bind (kept.record _ _ _) fun _ => Alike.ret _
        exact Alike.branch (fun _ => Alike.bind (kept.localEvent s) fun _ => finish) fun _ => finish
  · exact Alike.lift _

theorem twice_translateEdge (e : Edge) (ctx : ContextPrefix) (q : Instance) :
    Alike R (sTranslateEdge env e ctx q) (sTranslateEdge env e ctx q) := by
  have finish : Alike R (do
      let ev ← edgeEvent env e ctx q
      let src ← fromExcept (endName env e.src)
      let tgt ← fromExcept (endName env e.dst)
      assertTr (e.actname == "SKIP" || e.actname == "") "e.actname == \"SKIP\" || e.actname == \"\""
      let attr ← fromExcept (edgeAttributes env e ctx q)
      edge (stringOf ctx) src tgt ev attr : Tr Unit) (do
      let ev ← edgeEvent env e ctx q
      let src ← fromExcept (endName env e.src)
      let tgt ← fromExcept (endName env e.dst)
      assertTr (e.actname == "SKIP" || e.actname == "") "e.actname == \"SKIP\" || e.actname == \"\""
      let attr ← fromExcept (edgeAttributes env e ctx q)
      edge (stringOf ctx) src tgt ev attr : Tr Unit) := by
    refine Alike.bind (twice_edgeEvent kept e ctx q) fun ev => Alike.liftBind fun src _ => ?_
    refine Alike.liftBind fun tgt _ => Alike.liftBind fun _ _ => Alike.liftBind fun attr _ => ?_
    exact kept.edge _ _ _ _ _
  exact Alike.branch (fun _ => Alike.bind (alike_comment kept.toSideBySide _) fun _ => finish)
    fun _ => finish

theorem twice_edgeWithSelect (e : Edge) (ctx : ContextPrefix) (select : List Symbol) (q : Instance) :
    Alike R (sTranslateEdgeWithSelect env e ctx select q) (sTranslateEdgeWithSelect env e ctx select q) := by
  induction select generalizing q with
  | nil => exact twice_translateEdge kept e ctx q
  | cons sel rest ih =>
      exact Alike.liftBind fun bounds _ => alike_forRange fun i _ => ih (bindConstant q sel i)

/-- Everything behind the first statement of `s_translate_process`, which forgets
the local events of the process before. -/
theorem twice_instance (ctx : ContextPrefix) (q : Instance) (mapping : Mapping) {s s' : TrState}
    (related : R { s with localEvents := ∅ } { s' with localEvents := ∅ }) :
    (exec (sTranslateInstance env ctx q mapping) s).1 = (exec (sTranslateInstance env ctx q mapping) s').1 ∧
      R (exec (sTranslateInstance env ctx q mapping) s).2 (exec (sTranslateInstance env ctx q mapping) s').2 := by
  have sides := kept.toSideBySide
  have finish : Alike R (do
      writeLine (.process (stringOf ctx))
      translateDeclarations env (mergeMapping q mapping) ctx (mergeMapping q mapping).templ.toDeclarations
      sTranslateStates env ctx (mergeMapping q mapping)
      sTranslateEdges env ctx (mergeMapping q mapping)
      write .blank : Tr Unit) (do
      writeLine (.process (stringOf ctx))
      translateDeclarations env (mergeMapping q mapping) ctx (mergeMapping q mapping).templ.toDeclarations
      sTranslateStates env ctx (mergeMapping q mapping)
      sTranslateEdges env ctx (mergeMapping q mapping)
      write .blank : Tr Unit) := by
    refine Alike.bind (alike_line sides _) fun _ => Alike.bind (twice_declarations sides ctx _) fun _ => ?_
    refine Alike.bind (Alike.forM fun st _ => Alike.liftBind fun attr _ => alike_line sides _) fun _ => ?_
    refine Alike.bind (Alike.forM fun e _ => twice_edgeWithSelect kept e ctx e.select _) fun _ => ?_
    exact alike_write sides _
  have body : Alike R (do
      assertTr (mapping.size == q.parameters.length) "mapping.size () == p.parameters.getSize ()"
      if 0 < q.unbound then commentln [.text "instantiation as ", .text (stringOf ctx)]
      writeLine (.process (stringOf ctx))
      translateDeclarations env (mergeMapping q mapping) ctx (mergeMapping q mapping).templ.toDeclarations
      sTranslateStates env ctx (mergeMapping q mapping)
      sTranslateEdges env ctx (mergeMapping q mapping)
      write .blank : Tr Unit) (do
      assertTr (mapping.size == q.parameters.length) "mapping.size () == p.parameters.getSize ()"
      if 0 < q.unbound then commentln [.text "instantiation as ", .text (stringOf ctx)]
      writeLine (.process (stringOf ctx))
      translateDeclarations env (mergeMapping q mapping) ctx (mergeMapping q mapping).templ.toDeclarations
      sTranslateStates env ctx (mergeMapping q mapping)
      sTranslateEdges env ctx (mergeMapping q mapping)
      write .blank : Tr Unit) :=
    Alike.liftBind fun _ _ =>
      Alike.branch (fun _ => Alike.bind (alike_comment sides _) fun _ => finish) fun _ => finish
  exact body _ _ related

end

/-! ## What has been added -/

/-- What one process leaves for the others. -/
inductive Fact where
  | label (id : String)
  | tau
  | entry (kind : SyncKind) (s process : String)

def Remembered (st : TrState) : Fact → Prop
  | .label id => id ∈ st.events.labels
  | .tau => st.tauGenerated = true
  | .entry kind s process => process ∈ (tableOf kind st.events).procs s

/-- The `event` lines that are written once for all processes. -/
def shared (st : TrState) : Line → ℤ
  | .event id => (if id ∈ st.events.labels then 1 else 0) +
      if id = tauEvent ∧ st.tauGenerated = true then 1 else 0
  | _ => 0

/-- How often a line has been written, without those. -/
def ownCount (st : TrState) (l : Line) : ℤ := st.lines.count l - shared st l

/-- What has been written and remembered. -/
structure Account where
  own : Line → ℤ
  remembered : Set Fact

namespace Account

instance : Zero Account := ⟨⟨fun _ => 0, ∅⟩⟩

instance : Add Account := ⟨fun a b => ⟨fun l => a.own l + b.own l, a.remembered ∪ b.remembered⟩⟩

instance : AddCommMonoid Account where
  add_assoc a b c := congrArg₂ mk (funext fun l => add_assoc _ _ _) (Set.union_assoc _ _ _)
  zero_add a := congrArg₂ mk (funext fun l => zero_add _) (Set.empty_union _)
  add_zero a := congrArg₂ mk (funext fun l => add_zero _) (Set.union_empty _)
  add_comm a b := congrArg₂ mk (funext fun l => add_comm _ _) (Set.union_comm _ _)
  nsmul := nsmulRec

end Account

def account (st : TrState) : Account := ⟨ownCount st, {f | Remembered st f}⟩

/-- The account of one line. -/
def lineAccount (l : Line) : Account := ⟨fun l' => if l' = l then 1 else 0, ∅⟩

/-- The account of something to remember. -/
def factAccount (f : Fact) : Account := ⟨fun _ => 0, {f}⟩

section

variable {st st' : TrState}

theorem account_congr (lines : st'.lines = st.lines) (events : st'.events = st.events)
    (tau : st'.tauGenerated = st.tauGenerated) : account st' = account st := by
  have same : shared st' = shared st := by
    funext l
    cases l <;> simp only [shared, events, tau]
  have known : Remembered st' = Remembered st := by
    funext f
    cases f <;> simp only [Remembered, events, tau]
  unfold account ownCount
  rw [lines, same, known]

theorem account_eq_add (added : Account) (lines : ∀ l, ownCount st' l = ownCount st l + added.own l)
    (known : ∀ f, Remembered st' f ↔ Remembered st f ∨ f ∈ added.remembered) :
    account st' = account st + added :=
  congrArg₂ Account.mk (funext lines) (Set.ext known)

/-- Something is remembered, and no line is counted. -/
theorem account_remember (f : Fact) (lines : ∀ l, ownCount st' l = ownCount st l)
    (known : ∀ f', Remembered st' f' ↔ Remembered st f' ∨ f' = f) : account st' = account st + factAccount f :=
  account_eq_add (factAccount f) (fun l => (lines l).trans (add_zero _).symm) known

theorem account_writeLine (st : TrState) (l : Line) :
    account (st.writeLine l) = account st + lineAccount l := by
  refine account_eq_add (lineAccount l) (fun l' => ?_) fun f => ?_
  · have count : ((st.writeLine l).lines.count l' : ℤ) = st.lines.count l' + if l' = l then 1 else 0 := by
      rw [TrState.lines_writeLine, List.count_append, List.count_singleton]
      by_cases same : l' = l
      · subst same
        simp
      · simp [same, Ne.symm same]
    have others : shared (st.writeLine l) l' = shared st l' := by
      cases l' <;> rfl
    unfold ownCount
    rw [count, others, add_sub_right_comm]
    rfl
  · have same : Remembered (st.writeLine l) f ↔ Remembered st f := by
      cases f <;> rfl
    exact same.trans (or_iff_left (Set.notMem_empty f)).symm

theorem account_record (st : TrState) (kind : SyncKind) (s process : String) :
    account { st with events := recordEvent st.events kind s process } =
      account st + factAccount (.entry kind s process) := by
  refine account_remember (.entry kind s process) (fun l => ?_) fun f => ?_
  · have others : shared { st with events := recordEvent st.events kind s process } l = shared st l := by
      cases l <;> simp only [shared, recordEvent_labels]
    unfold ownCount
    rw [others]
    rfl
  · cases f with
    | label id => simp [Remembered, recordEvent_labels]
    | tau => simp [Remembered]
    | entry kind' s' process' =>
        simp only [Remembered, mem_tableOf_recordEvent, Fact.entry.injEq]

omit st st' in
/-- Nothing has been added at the beginning. -/
theorem account_initial : account .initial = 0 := by
  refine congrArg₂ Account.mk (funext fun l => ?_) (Set.eq_empty_of_forall_notMem fun f known => ?_)
  · cases l <;> simp [ownCount, shared, TrState.initial, TrState.lines, linesOf, GlobalEvents.empty]
  · cases f with
    | label id => exact absurd known Std.TreeSet.not_mem_emptyc
    | tau => cases known
    | entry kind s process =>
        have empty : tableOf kind .empty = .empty := by
          cases kind <;> rfl
        change process ∈ (tableOf kind .empty).procs s at known
        rw [empty, ProcTable.procs_empty] at known
        exact absurd known Std.TreeSet.not_mem_emptyc

/-- A line that is written once for all processes is not counted. -/
theorem ownCount_introduce {id : String} (lines : st'.lines = st.lines ++ [.event id])
    (more : shared st' (.event id) = shared st (.event id) + 1)
    (others : ∀ l, l ≠ .event id → shared st' l = shared st l) (l : Line) : ownCount st' l = ownCount st l := by
  unfold ownCount
  rw [lines, List.count_append, List.count_singleton]
  by_cases same : l = .event id
  · subst same
    rw [more, if_pos (beq_self_eq_true _)]
    omega
  · rw [others l same, if_neg (by simpa using Ne.symm same), Nat.add_zero]

/-- An event that is introduced once for all processes. -/
theorem account_declare (env : Env) (channel : Symbol) (ev s : String)
    (lines : st'.lines = st.lines ++ if ev ∈ st.events.labels then [] else [.event ev])
    (events : st'.events = declaredIn env channel ev s st.events)
    (tau : st'.tauGenerated = st.tauGenerated) : account st' = account st + factAccount (.label ev) := by
  have labels (id : String) : id ∈ st'.events.labels ↔ id ∈ st.events.labels ∨ id = ev := by
    rw [events]
    unfold declaredIn
    split
    · rename_i known
      exact (or_iff_left_of_imp (by rintro rfl; exact known)).symm
    · rw [Std.TreeSet.mem_insert, Std.compare_eq_iff_eq, or_comm, eq_comm]
  refine account_remember (.label ev) (fun l => ?_) fun f => ?_
  · by_cases known : ev ∈ st.events.labels
    · rw [if_pos known, List.append_nil] at lines
      rw [declaredIn, if_pos known] at events
      have same : account st' = account st := account_congr lines events tau
      exact congrFun (congrArg Account.own same) l
    · rw [if_neg known] at lines
      refine ownCount_introduce lines ?_ (fun l other => ?_) l
      · simp only [shared, (labels ev).mpr (.inr rfl), known, tau, if_true, if_false, zero_add]
        exact add_comm _ _
      · cases l with
        | event id =>
            have differ : id ≠ ev := fun same => other (congrArg Line.event same)
            simp only [shared, labels, tau, or_iff_left differ]
        | _ => rfl
  · cases f with
    | label id => simp only [Remembered, labels, Fact.label.injEq]
    | tau => simp [Remembered, tau]
    | entry kind s' process =>
        have same : tableOf kind st'.events = tableOf kind st.events := by
          rw [events, tableOf_declaredIn]
        simp [Remembered, same]

/-- The event `tau`, before the first edge without an event. -/
theorem account_tau (unknown : ¬ st.tauGenerated = true) (lines : st'.lines = st.lines ++ [.event tauEvent])
    (events : st'.events = st.events) (tau : st'.tauGenerated = true) :
    account st' = account st + factAccount .tau := by
  refine account_remember .tau (fun l => ?_) fun f => ?_
  · refine ownCount_introduce lines ?_ (fun l other => ?_) l
    · simp [shared, events, tau, unknown]
    · cases l with
      | event id =>
          have differ : id ≠ tauEvent := fun same => other (congrArg Line.event same)
          simp [shared, differ, events]
      | _ => rfl
  · cases f <;> simp [Remembered, unknown, tau, events]

/-- The line of an edge. -/
theorem account_edge (st : TrState) (process src tgt event : String) (attr : Attributes) :
    ∃ st', exec (edge process src tgt event attr) st = (.ok (), st') ∧ st'.localEvents = st.localEvents ∧
      account st' = account st + ((if event = tauEvent then factAccount .tau else 0) +
        lineAccount (.edge process src tgt event attr.toList)) := by
  unfold edge
  rw [exec_bind, exec_get, ← add_assoc]
  dsimp only
  by_cases first : event = tauEvent ∧ ¬ st.tauGenerated = true
  · rw [if_pos first, if_pos first.1]
    refine ⟨_, rfl, rfl, (account_writeLine _ _).trans (congrArg (· + _) (account_tau first.2 ?_ rfl rfl))⟩
    change ((st.write _).writeLine _).lines = _
    rw [TrState.lines_writeLine, TrState.lines_comment]
  · rw [if_neg first]
    refine ⟨_, rfl, rfl, (account_writeLine _ _).trans (congrArg (· + _) ?_)⟩
    split
    · rename_i isTau
      have known : st.tauGenerated = true := by
        by_contra unknown
        exact first ⟨isTau, unknown⟩
      refine account_remember .tau (fun _ => rfl) fun f => ?_
      refine (or_iff_left_of_imp ?_).symm
      rintro rfl
      exact known
    · exact (add_zero _).symm

/-- The line of an event, unless it is there. -/
theorem account_event (env : Env) (st : TrState) (channel : Symbol) (reference : Expr) (ev s : String) :
    ∃ st', exec (declareEvent env channel reference ev s) st = (.ok (), st') ∧
      st'.localEvents = st.localEvents ∧ account st' = account st + factAccount (.label ev) := by
  unfold declareEvent
  rw [exec_bind, exec_get]
  dsimp only
  by_cases known : ev ∈ st.events.labels
  · rw [if_neg (not_not_intro known)]
    refine ⟨st, rfl, rfl, account_declare env channel ev s ?_ ?_ rfl⟩
    · rw [if_pos known, List.append_nil]
    · rw [declaredIn, if_pos known]
  · rw [if_pos known]
    have finish (args : List Arg) (st₁ : TrState) (start : st₁ = st ∨ st₁ = st.write (.message vlWarning args)) :
        ∃ st', exec (do
            writeLine (.event ev)
            modify fun st => { st with
              events := { st.events with
                labels := st.events.labels.insert ev
                brodcasts := if sIsBroadcast env channel then st.events.brodcasts.insert s
                  else st.events.brodcasts } } : Tr Unit) st₁ = (.ok (), st') ∧
          st'.localEvents = st.localEvents ∧ account st' = account st + factAccount (.label ev) := by
      have lines : st₁.lines = st.lines := by
        rcases start with rfl | rfl
        · rfl
        · exact TrState.lines_message _ _ _
      have rest : st₁.events = st.events ∧ st₁.localEvents = st.localEvents ∧
          st₁.tauGenerated = st.tauGenerated := by
        rcases start with rfl | rfl <;> exact ⟨rfl, rfl, rfl⟩
      refine ⟨_, rfl, rest.2.1, account_declare env channel ev s ?_ ?_ rest.2.2⟩
      · change (st₁.writeLine (.event ev)).lines = _
        rw [TrState.lines_writeLine, lines, if_neg known]
      · rw [declaredIn, if_neg known, ← rest.1]
        rfl
    split
    · unfold warn msg
      split
      · exact finish _ _ (.inr rfl)
      · exact finish [] _ (.inl rfl)
    · exact finish [] _ (.inl rfl)

end

/-! ## Processes superpose -/

/-- The second state with something else beside it. -/
def Beside (base : Account) (st st' : TrState) : Prop :=
  account st = base + account st' ∧ st.localEvents = st'.localEvents

/-- A step that always adds the same. -/
theorem beside_add {base : Account} (added : Account) {s s' t t' : TrState} (related : Beside base s s')
    (adds : account t = account s + added) (adds' : account t' = account s' + added)
    (locals : t.localEvents = t'.localEvents) : Beside base t t' := by
  refine ⟨?_, locals⟩
  rw [adds, adds', related.1, add_assoc]

theorem account_of_silent (st : TrState) (o : Output) (silent : ∀ l, o ≠ .line l) :
    account (st.write o) = account st := by
  refine account_congr ?_ rfl rfl
  cases o with
  | line l => exact absurd rfl (silent l)
  | comment args => exact st.lines_comment args
  | blank => exact st.lines_blank
  | message level args => exact st.lines_message level args

theorem sides_beside (base : Account) : SideBySide (Beside base) where
  write {st st'} related o := by
    cases o with
    | line l => exact beside_add _ related (account_writeLine st l) (account_writeLine st' l) related.2
    | _ =>
        refine beside_add 0 related ?_ ?_ related.2
        · rw [account_of_silent _ _ (by rintro l ⟨⟩), add_zero]
        · rw [account_of_silent _ _ (by rintro l ⟨⟩), add_zero]
  left {st _} related level args :=
    ⟨(account_of_silent st (.message level args) (by rintro l ⟨⟩)).trans related.1, related.2⟩
  right {_ st'} related level args := by
    refine ⟨?_, related.2⟩
    rw [account_of_silent st' (.message level args) (by rintro l ⟨⟩)]
    exact related.1

theorem alike_of_adds {base added : Account} {m : Tr Unit}
    (adds : ∀ s, ∃ t, exec m s = (.ok (), t) ∧ t.localEvents = s.localEvents ∧
      account t = account s + added) : Alike (Beside base) m m := by
  intro s s' related
  obtain ⟨t, run, locals, more⟩ := adds s
  obtain ⟨t', run', locals', more'⟩ := adds s'
  rw [run, run']
  exact ⟨rfl, beside_add _ related more more' (locals.trans (related.2.trans locals'.symm))⟩

theorem kept_beside (env : Env) (base : Account) : KeptByProcesses env (Beside base) where
  toSideBySide := sides_beside base
  localEvent label := by
    refine Alike.read fun st st' related => ?_
    rw [related.2]
    refine Alike.branch (fun _ => ?_) fun _ => Alike.ret _
    refine Alike.bind (alike_line (sides_beside base) _) fun _ => Alike.update fun s s' related => ?_
    exact ⟨related.1, congrArg (fun events : EventSet => events.insert label) related.2⟩
  event channel reference ev s := alike_of_adds fun st => account_event env st channel reference ev s
  record kind s process := alike_of_adds fun st => ⟨_, rfl, rfl, account_record st kind s process⟩
  edge process src tgt event attr := alike_of_adds fun st => account_edge st process src tgt event attr

variable {env : Env}

theorem instance_superposes (ctx : ContextPrefix) (q : Instance) (mapping : Mapping) :
    Superposes account (sTranslateInstance env ctx q mapping) := by
  intro base s s' related
  have start : Beside base { s with localEvents := ∅ } { s' with localEvents := ∅ } := ⟨related, rfl⟩
  obtain ⟨same, later⟩ := twice_instance (kept_beside env base) ctx q mapping start
  exact ⟨same, later.1⟩

/-- A process is translated alike beside others. -/
theorem process_superposes (q : Instance) : Superposes account (sTranslateProcess env q) := by
  intro base
  have silent (o : Output) (none : ∀ l, o ≠ .line l) :
      Alike (fun s s' => account s = base + account s') (write o) (write o) :=
    Alike.update fun s s' related => by
      rw [account_of_silent s o none, account_of_silent s' o none]
      exact related
  have message (args : List Arg) : Alike (fun s s' => account s = base + account s')
      (msg env.verboseLevel vlInfo args) (msg env.verboseLevel vlInfo args) :=
    Alike.branch (fun _ => silent _ (by rintro l ⟨⟩)) fun _ => Alike.ret _
  have whole (n : Nat) (ctx : ContextPrefix) (m : Mapping) :
      Alike (fun s s' => account s = base + account s') (sTranslateProcessRec env q n ctx m)
        (sTranslateProcessRec env q n ctx m) := by
    induction n generalizing ctx m with
    | zero => exact instance_superposes ctx q m base
    | succ n ih =>
        exact Alike.liftBind fun s _ => Alike.liftBind fun bounds _ => alike_forRange fun i _ => ih _ _
  refine Alike.bind (silent _ (by rintro l ⟨⟩)) fun _ => Alike.branch (fun _ => ?_) fun _ => ?_
  · exact Alike.bind (message _) fun _ => whole _ _ _
  · exact instance_superposes _ q _ base

end Utot
