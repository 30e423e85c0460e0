import Utot.Format.Texts
import Utot.Meaning.References
import Utot.Meaning.Updates
import Utot.Order.Processes
import Utot.Run.Achieved

/-!
# References in the output of a run

A run of the translator that returns has printed every declaration and
translated every attribute, so that each reference in a guard, an invariant or
an update names a line of its output, if it is used as it has been declared.
-/

namespace Utot

open Utap Uppaal Library Tchecker

/-! ## References of an attribute -/

section

variable {env : Env} {p : Option Instance} {r e : Expr} {ctx : ContextPrefix} {text : String}

/-- A variable or a cell is no update. -/
theorem translateAssignment_reference (consistent : Consistent env p ctx r) :
    translateAssignment env p r ctx ≠ .ok text := by
  intro printed
  cases consistent with
  | single => exact default_ne_ok printed
  | cell => exact translateAssignment_rejectedBinary (by decide) (by decide) rfl printed
  | element => exact translateAssignment_rejectedBinary (by decide) (by decide) rfl printed

/-- The references of an update that is printed have been translated on their own. -/
theorem translated_of_assignment (consistent : Consistent env p ctx r) (inside : PrintedIn env p r e)
    (noSync : NoSync env p e) (printed : translateAssignment env p e ctx = .ok text) :
    ∃ inner, translateExpression env p r ctx = .ok inner := by
  fun_induction translateAssignment env p e ctx generalizing text with
  | case1 l r t =>
      obtain ⟨target, first, printed'⟩ := Res.bind_eq_ok.mp printed
      obtain ⟨value, second, _⟩ := Res.bind_eq_ok.mp printed'
      cases inside with
      | self => exact absurd printed (translateAssignment_reference consistent)
      | left inside =>
          exact translated_of_printedIn inside (fun kind c sync => noSync kind c (.left sync)) first
      | right other inside =>
          exact translated_of_printedIn inside (fun kind c sync => noSync kind c (.right other sync)) second
  | case2 l r t ihl ihr =>
      obtain ⟨front, first, printed'⟩ := Res.bind_eq_ok.mp printed
      obtain ⟨back, second, _⟩ := Res.bind_eq_ok.mp printed'
      cases inside with
      | self => exact absurd printed (translateAssignment_reference consistent)
      | left inside => exact ihl inside (fun kind c sync => noSync kind c (.left sync)) first
      | right other inside =>
          exact ihr inside (fun kind c sync => noSync kind c (.right other sync)) second
  | case3 k l r t noAssign noComma op listed =>
      obtain ⟨target, operand, first, second, _⟩ := assignBinaryOp_eq_ok printed
      cases inside with
      | self => cases consistent <;> cases listed
      | left inside =>
          exact translated_of_printedIn inside (fun kind c sync => noSync kind c (.left sync)) first
      | right other inside =>
          exact translated_of_printedIn inside (fun kind c sync => noSync kind c (.right other sync)) second
      | index => cases listed
  | case4 => cases printed
  | case5 => exact absurd printed default_ne_ok
  | case6 => exact absurd printed default_ne_ok
  | case7 k x t op listed =>
      obtain ⟨target, operand, first, _⟩ := assignBinaryOp_eq_ok printed
      cases inside with
      | self => cases consistent
      | unary inside =>
          exact translated_of_printedIn inside (fun kind c sync => noSync kind c (.unary sync)) first
  | case8 => exact absurd printed default_ne_ok
  | case9 => exact absurd printed default_ne_ok
  | case10 v t =>
      cases inside
      cases consistent
  | case11 => exact absurd printed default_ne_ok
  | case12 => exact absurd printed default_ne_ok

end

/-! ## Select variables -/

/-- Values of select variables hide no argument. -/
theorem extends_of_selects {env : Env} {select : List Symbol} {p q : Instance}
    (selects : Selects env select p q) (distinct : select.Nodup)
    (fresh : ∀ s ∈ select, mapped? (some p) s = none) : Extends (some p) (some q) := by
  induction selects with
  | done => exact Extends.refl _
  | @bind sel rest p q min max i bounds lower upper later ih =>
      obtain ⟨other, distinct⟩ := List.nodup_cons.mp distinct
      have unbound : p.mapping[sel]? = none := fresh sel List.mem_cons_self
      have kept {s : Symbol} (differs : sel ≠ s) :
          mapped? (some (bindConstant p sel i)) s = mapped? (some p) s := by
        change (bindConstant p sel i).mapping[s]? = p.mapping[s]?
        rw [lookup_bindConstant, if_neg differs]
      have later' := ih distinct fun s listed => by
        rw [kept fun same => other (same ▸ listed)]
        exact fresh s (List.mem_cons_of_mem _ listed)
      intro s argument bound
      apply later'
      rw [kept, bound]
      rintro rfl
      change p.mapping[sel]? = some argument at bound
      rw [unbound] at bound
      cases bound

/-! ## Runs -/

/-- What the type checker promises about the references of a model. -/
structure AcceptedReferences (env : Env) (tas : TimedAutomataSystem) : Prop where
  globals : ∀ c ∈ tas.globals.vars.tail, env.hasParent c = false
  locals : ∀ p ∈ tas.processes, ∀ c ∈ p.templ.vars, env.hasParent c = true
  /-- The frame of a select is one of its own. -/
  selects : ∀ p ∈ tas.processes, ∀ ctx q, InstanceOf env p ctx q → ∀ e ∈ q.templ.edges,
    e.select.Nodup ∧ ∀ s ∈ e.select, mapped? (some q) s = none
  checked : ∀ ctx q e, Translated env tas ctx q e →
    Checked env (some q) (tas.globals.vars.tail ++ q.templ.vars) e
  /-- Guards, invariants and updates have no synchronisation, and no channel is read in them. -/
  noSync : ∀ ctx q e, Translated env tas ctx q e → NoSync env (some q) e
  stored : ∀ ctx q e r c indices, Translated env tas ctx q e → PrintedIn env (some q) r e →
    Denotes env (some q) r c indices → writesLines (env.getType c) = true

section

variable {env : Env} {sysname : String} {tas : TimedAutomataSystem} {st st' : TrState}
  {ctx : ContextPrefix} {q : Instance} {e r : Expr}

/-- The declarations an instance sees are in the output, and were printed with no
more bindings than its edges are. -/
theorem AcceptedReferences.hasDeclaration (accepted : AcceptedReferences env tas)
    (run : exec (translateSystem env sysname tas) st = (.ok (), st')) {p s : Instance}
    (listed : p ∈ tas.processes) (inst : InstanceOf env p ctx s) (more : Extends (some s) (some q))
    (same : q.templ = s.templ) {c : Symbol} (visible : c ∈ tas.globals.vars.tail ++ q.templ.vars) :
    HasDeclaration env (some q) ctx st'.lines c := by
  rcases List.mem_append.mp visible with isGlobal | isLocal
  · obtain ⟨ls, printed, inside⟩ := global_lines run isGlobal
    refine ⟨none, ls, extends_none _, ?_, inside⟩
    rw [symbolName, accepted.globals c isGlobal]
    exact printed
  · rw [same] at isLocal
    obtain ⟨ls, printed, inside⟩ := local_lines run listed inst isLocal
    refine ⟨some s, ls, more, ?_, inside⟩
    obtain ⟨m, _, rfl⟩ := inst
    rw [symbolName, accepted.locals p listed c isLocal]
    exact printed

/-- An expression that a run has translated: its instance extends one whose
declarations have been printed, and its references have a text. -/
theorem AcceptedReferences.translated (accepted : AcceptedReferences env tas)
    (run : exec (translateSystem env sysname tas) st = (.ok (), st'))
    (translated : Translated env tas ctx q e) (inside : PrintedIn env (some q) r e)
    (consistent : Consistent env (some q) ctx r) :
    (∀ c ∈ tas.globals.vars.tail ++ q.templ.vars, HasDeclaration env (some q) ctx st'.lines c) ∧
      ∃ text, translateExpression env (some q) r ctx = .ok text := by
  have noSync := accepted.noSync ctx q e translated
  have declared {p s : Instance} {edge : Edge} (listed : p ∈ tas.processes)
      (inst : InstanceOf env p ctx s) (visited : VisitIn env s q edge) :
      ∀ c ∈ tas.globals.vars.tail ++ q.templ.vars, HasDeclaration env (some q) ctx st'.lines c := by
    obtain ⟨distinct, fresh⟩ := accepted.selects p listed ctx s inst edge visited.1
    have more := extends_of_selects visited.2 distinct fresh
    intro c visible
    exact accepted.hasDeclaration run listed inst more (selects_templ visited.2) visible
  cases translated with
  | @invariant p _ _ state _ listed inst member given =>
      refine ⟨fun c visible => ?_, ?_⟩
      · exact accepted.hasDeclaration run listed inst (Extends.refl _) rfl visible
      · obtain ⟨attr, attributes⟩ := state_translated run listed inst member
        unfold stateAttributes at attributes
        rw [given] at attributes
        obtain ⟨text, printed, _⟩ := Res.bind_eq_ok.mp attributes
        exact translated_of_printedIn inside noSync printed
  | guard visit =>
      obtain ⟨p, listed, s, inst, visited⟩ := visit
      refine ⟨declared listed inst visited, ?_⟩
      obtain ⟨attr, attributes⟩ := edge_translated run listed inst visited
      obtain ⟨text, printed, _⟩ := Res.bind_eq_ok.mp attributes
      exact translated_of_printedIn inside noSync printed
  | update visit =>
      obtain ⟨p, listed, s, inst, visited⟩ := visit
      refine ⟨declared listed inst visited, ?_⟩
      obtain ⟨attr, attributes⟩ := edge_translated run listed inst visited
      obtain ⟨_, _, attributes⟩ := Res.bind_eq_ok.mp attributes
      obtain ⟨text, printed, _⟩ := Res.bind_eq_ok.mp attributes
      exact translated_of_assignment consistent inside noSync printed

end

/-! ## Rows of an array -/

/-- `int[0,1] m[2][3]`, with an initialiser or without one, `int[0,1] a[int[-1,1]]`, and a
process `P` with a variable `j`. -/
def tableEnv (init : Option Expr) : Env :=
  envOfSymbols [⟨"t(0)", .prim .clock, false, some ⟨none⟩⟩, ⟨"m", table, false, some ⟨init⟩⟩,
    ⟨"a", shifted, false, some ⟨none⟩⟩, ⟨"P", .prim .unknown, false, none⟩,
    ⟨"j", digit, true, some ⟨none⟩⟩, ⟨"A", .prim .location, true, none⟩]
where
  upTo (lower upper : Int) : Ty :=
    .range (.prim .int) (.constant lower (.prim .int)) (.constant upper (.prim .int))
  digit : Ty := upTo 0 1
  row : Ty := .array digit (upTo 0 2)
  table : Ty := .array row (upTo 0 1)
  shifted : Ty := .array digit (upTo (-1) 1)

/-- `{ { 0, 1, 1 }, { 1, 0, 0 } }`. -/
def tableRows : Expr := .nary .list [rowOf 0 1, rowOf 1 0] tableEnv.table
where
  rowOf (first rest : Int) : Expr :=
    .nary .list [.constant first (.prim .int), .constant rest (.prim .int), .constant rest (.prim .int)]
      tableEnv.row

/-- `m[1]`. -/
def tableRow : Expr :=
  .binary .array (.identifier 1 tableEnv.table) (.constant 1 (.prim .int)) tableEnv.row

/-- `m[1][2]`. -/
def tableCell : Expr := .binary .array tableRow (.constant 2 (.prim .int)) tableEnv.digit

/-- `a[j]`. -/
def shiftedCell : Expr :=
  .binary .array (.identifier 2 tableEnv.shifted) (.identifier 4 tableEnv.digit) tableEnv.digit

/-- `m[1][2] == a[j]`. -/
def tableGuard : Expr := .binary .eq tableCell shiftedCell (.prim .bool)

def tableEdge : Edge :=
  { actname := "", src := some 5, dst := some 5, select := [], guard := tableGuard, sync := none
    assign := .constant 1 (.prim .int) }

def tableProcess : Instance :=
  { uid := 3, parameters := [], mapping := ∅, unbound := 0
    templ := { vars := [4], iodecl := [], functions := [], init := 5, states := [⟨5, none⟩], edges := [tableEdge] } }

def tableModel : TimedAutomataSystem := ⟨⟨[0, 1, 2], [], []⟩, [tableProcess]⟩

section

variable {init : Option Expr} {ctx : ContextPrefix} {q : Instance} {e : Expr}

theorem mapped_tableProcess (s : Symbol) : mapped? (some tableProcess) s = none :=
  rfl

theorem instanceOf_table {p : Instance} (listed : p ∈ tableModel.processes)
    (inst : InstanceOf (tableEnv init) p ctx q) : ctx = ["P"] ∧ q = tableProcess := by
  obtain ⟨m, inst, rfl⟩ := inst
  rw [List.mem_singleton.mp listed] at inst ⊢
  cases inst
  exact ⟨rfl, rfl⟩

theorem visit_table {edge : Edge} (visit : Visit (tableEnv init) tableModel.processes ctx q edge) :
    ctx = ["P"] ∧ q = tableProcess ∧ edge = tableEdge := by
  obtain ⟨p, listed, s, inst, member, selects⟩ := visit
  obtain ⟨rfl, rfl⟩ := instanceOf_table listed inst
  cases List.mem_singleton.mp member
  cases selects
  exact ⟨rfl, rfl, rfl⟩

theorem translated_table (translated : Translated (tableEnv init) tableModel ctx q e) :
    ctx = ["P"] ∧ q = tableProcess ∧ (e = tableGuard ∨ e = .constant 1 (.prim .int)) := by
  cases translated with
  | invariant listed inst member given =>
      obtain ⟨rfl, rfl⟩ := instanceOf_table listed inst
      cases List.mem_singleton.mp member
      cases given
  | guard visit =>
      obtain ⟨rfl, rfl, rfl⟩ := visit_table visit
      exact ⟨rfl, rfl, .inl rfl⟩
  | update visit =>
      obtain ⟨rfl, rfl, rfl⟩ := visit_table visit
      exact ⟨rfl, rfl, .inr rfl⟩

theorem checked_tableGuard : Checked (tableEnv init) (some tableProcess) [1, 2, 4] tableGuard := by
  have number (v : Int) : Checked (tableEnv init) (some tableProcess) [1, 2, 4]
      (.constant v (.prim .int)) := .ofConstant mapped_tableProcess v _
  apply Checked.ofBinary (by decide)
  · apply Checked.ofCell rfl _ (number 2)
    exact .ofCell rfl (.ofDeclared mapped_tableProcess rfl (by decide)) (number 1)
  · apply Checked.ofCell rfl
    · exact .ofDeclared mapped_tableProcess rfl (by decide)
    · exact .ofDeclared mapped_tableProcess rfl (by decide)

theorem noSync_tableGuard : NoSync (tableEnv init) (some tableProcess) tableGuard := by
  apply noSync_binary
  · apply noSync_binary _ _ (noSync_constant _ _)
    exact noSync_binary _ (noSync_declared _ (mapped_tableProcess 1)) (noSync_constant _ _)
  · apply noSync_binary
    · exact noSync_declared _ (mapped_tableProcess 2)
    · exact noSync_declared _ (mapped_tableProcess 4)

theorem accepted_table : AcceptedReferences (tableEnv init) tableModel := by
  have checked {ctx q e} (translated : Translated (tableEnv init) tableModel ctx q e) :
      Checked (tableEnv init) (some q) (tableModel.globals.vars.tail ++ q.templ.vars) e := by
    obtain ⟨rfl, rfl, rfl | rfl⟩ := translated_table translated
    · exact checked_tableGuard
    · exact .ofConstant mapped_tableProcess _ _
  have noSync {ctx q e} (translated : Translated (tableEnv init) tableModel ctx q e) :
      NoSync (tableEnv init) (some q) e := by
    obtain ⟨rfl, rfl, rfl | rfl⟩ := translated_table translated
    · exact noSync_tableGuard
    · exact noSync_constant _ _
  constructor
  · intro c listed
    rcases List.mem_pair.mp listed with rfl | rfl <;> rfl
  · intro p listed c declared
    rw [List.mem_singleton.mp listed] at declared
    rw [List.mem_singleton.mp declared]
    rfl
  · intro p listed ctx q inst edge member
    obtain ⟨rfl, rfl⟩ := instanceOf_table listed inst
    rw [List.mem_singleton.mp member]
    exact ⟨List.nodup_nil, fun s inside => nomatch inside⟩
  · exact fun ctx q e => checked
  · exact fun ctx q e => noSync
  · intro ctx q e r c indices translated inside denotes
    have written := written_of_printedIn inside (noSync translated)
    have visible := scope_of_denotes ((checked translated).within written) denotes
    obtain ⟨rfl, rfl, _⟩ := translated_table translated
    have lines : ∀ c ∈ [1, 2, 4], writesLines ((tableEnv init).getType c) = true := by
      intro c listed
      rw [List.mem_cons, List.mem_pair] at listed
      rcases listed with rfl | rfl | rfl <;> rfl
    exact lines c visible

end

theorem denotes_tableCell {init : Option Expr} {c : Symbol} {indices : List Int}
    (denotes : Denotes (tableEnv init) (some tableProcess) tableCell c indices) :
    c = 1 ∧ indices = [1, 2] := by
  have at' {v w : Int} (index : Evaluates (tableEnv init) (some tableProcess)
      (.constant v (.prim .int)) w) : v = w := Contains.unique (.integer rfl) index
  cases denotes with
  | cell row column =>
      cases row with
      | cell whole row =>
          cases whole with
          | declared => exact ⟨rfl, by rw [← at' column, ← at' row]; rfl⟩
          | parameter bound => cases bound

theorem translated_tableGuard (init : Option Expr) :
    Translated (tableEnv init) tableModel ["P"] tableProcess tableGuard := by
  have inst : InstanceOf (tableEnv init) tableProcess ["P"] tableProcess := ⟨∅, .done _ _, rfl⟩
  have visited : VisitIn (tableEnv init) tableProcess tableProcess tableEdge :=
    ⟨List.mem_singleton_self _, .done _⟩
  exact .guard ⟨_, List.mem_singleton_self _, _, inst, visited⟩

/-- `m[1][2]` is used the way `m` is declared when the rows of `m` start differently. -/
theorem consistent_tableCell :
    Consistent (tableEnv (some tableRows)) (some tableProcess) ["P"] tableCell := by
  have row : SplitPath (tableEnv (some tableRows)) (some tableProcess) tableRow 1 [1] :=
    .subscript (.declared (mapped_tableProcess 1) rfl) (.declared (mapped_tableProcess 1)) (.constant rfl)
  exact .cell (.subscript row (.row (.inr ⟨1, rfl, rfl⟩)) (.constant rfl)) rfl rfl

theorem consistent_shiftedCell (init : Option Expr) :
    Consistent (tableEnv init) (some tableProcess) ["P"] shiftedCell := by
  have exact : BoundsExact (tableEnv init) (some tableProcess) ((tableEnv init).getType 2) := by
    intro size lower upper sized ranged
    cases sized
    cases ranged
    exact ⟨⟨-1, .constant rfl⟩, 1, .constant rfl⟩
  apply Consistent.element (.declared (mapped_tableProcess 2) rfl exact)
    (.declared (mapped_tableProcess 4) rfl)
  intro s t inside unbound
  cases inside with
  | self =>
      have name : symbolName (tableEnv init) ["P"] 4 = "P_j" := rfl
      rw [name]
      exact ⟨⟨'P', ['_', 'j'], rfl, rfl⟩, rfl, by decide⟩
  | argument bound => cases bound

end Utot
