import Utot.Run.Whole

/-!
# The declarations of a whole run

The `clock` and `int` lines of a translation are those of the global declarations
and, instance by instance, those of the declarations of its template.
-/

namespace Utot

open Utap Library Tchecker

def isDeclared : Line → Bool
  | .clock _ _ => true
  | .intvar _ _ _ _ _ => true
  | _ => false

/-- The lines of the declarations of some variables. -/
def LinesOfVariables (env : Env) (p : Option Instance) (ctx : ContextPrefix) (vars : List Symbol)
    (ls : List Line) : Prop :=
  ∃ blocks, List.Forall₂ (fun c block => DeclarationLines env p (addPrefix ctx (env.getName c))
    (stripLabels (env.getType c)) (env.initialiser c) block) vars blocks ∧ ls = blocks.flatten

section

variable {env : Env} {p : Option Instance} {name : String} {t : Ty} {init : Option Expr} {ls : List Line}

/-- A line of a cell: of a clock, or of an integer variable. -/
inductive CellOutput (name : String) (t : Ty) : Line → Prop where
  | clock {size : Int} (isClock : t.stripArray.isClock = true) : CellOutput name t (.clock name size)
  | intvar {lo hi v size : Int} : CellOutput name t (.intvar lo hi v name size)

theorem isClock_of_kind (kind : t.kind = .prim .clock) : t.stripArray.isClock = true := by
  cases t with
  | prim k =>
      cases kind
      rfl
  | _ => cases kind

theorem mem_cellLine (printed : CellLine env p name t init ls) {l : Line} (listed : l ∈ ls) :
    CellOutput name t l := by
  cases printed with
  | channel => cases listed
  | clock kind =>
      cases List.mem_singleton.mp listed
      exact .clock (isClock_of_kind kind)
  | integer =>
      cases List.mem_singleton.mp listed
      exact .intvar

/-- A line of a flattened array is that of one of its cells. -/
theorem mem_cellLines {S : List Int} (printed : CellLines env p name t init S ls) {l : Line}
    (listed : l ∈ ls) : ∃ indices : List Int, CellOutput (cellName name (indices.reverse ++ S)) t l := by
  fun_induction CellLines env p name t init S ls with
  | case1 sub size init S ls ih =>
      obtain ⟨min, max, blocks, _, _, rows, rfl⟩ := printed
      obtain ⟨block, inside, member⟩ := List.mem_flatten.mp listed
      obtain ⟨i, _, cell, _, lines⟩ := exists_of_forall₂ rows.flip inside
      obtain ⟨indices, output⟩ := ih i block cell lines member
      refine ⟨i :: indices, ?_⟩
      rw [List.reverse_cons, List.append_assoc, List.singleton_append]
      cases output with
      | clock isClock => exact .clock isClock
      | intvar => exact .intvar
  | case2 => exact ⟨[], mem_cellLine printed listed⟩

/-- A line of a declaration is that of the variable or of one of its cells. -/
theorem mem_declarationLines (printed : DeclarationLines env p name t init ls) {l : Line}
    (listed : l ∈ ls) : ∃ indices : List Int, CellOutput (cellName name indices.reverse) t l := by
  cases printed with
  | integer =>
      cases List.mem_singleton.mp listed
      exact ⟨[], .intvar⟩
  | channel => cases listed
  | clock kind =>
      cases List.mem_singleton.mp listed
      exact ⟨[], .clock (isClock_of_kind kind)⟩
  | array _ printed =>
      cases printed with
      | clocks _ isClock =>
          cases List.mem_singleton.mp listed
          exact ⟨[], .clock isClock⟩
      | integers =>
          cases List.mem_singleton.mp listed
          exact ⟨[], .intvar⟩
      | cells _ printed =>
          obtain ⟨indices, output⟩ := mem_cellLines printed listed
          rw [List.append_nil] at output
          exact ⟨indices, output⟩

theorem CellOutput.name_eq {name' : String} {t' : Ty} {l : Line} (output : CellOutput name t l)
    (output' : CellOutput name' t' l) : name = name' := by
  cases output <;> cases output' <;> rfl

theorem CellOutput.isClock {id : String} {size : Int} (output : CellOutput name t (.clock id size)) :
    t.stripArray.isClock = true := by
  cases output with
  | clock isClock => exact isClock

theorem CellOutput.declared {l : Line} (output : CellOutput name t l) : isDeclared l = true := by
  cases output <;> rfl

end

/-! ## Declarations of a run -/

section

variable {env : Env} {sysname : String} {tas : TimedAutomataSystem}

/-- Programs that add lines of a kind add them to the lines of that kind. -/
theorem appends_picked {α : Type} {pick : Line → Bool} {m : Tr α} {P : List Line → Prop}
    (appends : Appends TrState.lines m fun _ => P) (picked : ∀ ls, P ls → ∀ l ∈ ls, pick l = true) :
    Appends (pickedLines pick) m fun _ => P := by
  intro st st' a run
  obtain ⟨ls, added, holds⟩ := appends st st' a run
  refine ⟨ls, ?_, holds⟩
  unfold pickedLines
  rw [added, List.filter_append, List.filter_eq_self.mpr (picked ls holds)]

theorem appends_declarations {pick : Line → Bool} (wide : ∀ l, isDeclared l = true → pick l = true)
    (p : Option Instance) (ctx : ContextPrefix) (decl : Declarations) :
    Appends (pickedLines pick) (translateDeclarations env p ctx decl) fun _ =>
      LinesOfVariables env p ctx (visitedVariables p decl) := by
  refine appends_picked ?_ fun ls declared l listed => wide l ?_
  · exact Appends.forM fun c _ => appends_declareVariable ctx c
  · obtain ⟨blocks, rounds, rfl⟩ := declared
    obtain ⟨block, inside, member⟩ := List.mem_flatten.mp listed
    obtain ⟨c, _, printed⟩ := exists_of_forall₂ rounds.flip inside
    obtain ⟨indices, output⟩ := mem_declarationLines printed member
    exact output.declared

/-- The declarations of a translation are those of the globals behind the first one,
and those of the instances, one after the other. -/
theorem appends_declaredLines : Appends (pickedLines isDeclared) (translateSystem env sysname tas)
    fun _ ls => ∃ front blocks, LinesOfVariables env none [] tas.globals.vars.tail front ∧
      List.Forall₂ (fun i => LinesOfVariables env (some i.2) i.1 i.2.templ.vars)
        (instances env tas.processes) blocks ∧ ls = front ++ blocks.flatten := by
  have inst (ctx : ContextPrefix) (p : Instance) (m : Mapping) :
      Appends (pickedLines isDeclared) (sTranslateInstance env ctx p m) fun _ =>
        LinesOfVariables env (some (mergeMapping p m)) ctx (mergeMapping p m).templ.vars := by
    refine (appends_instance rfl (appends_declarations (fun _ => id) _ _ _)
      (Appends.silent (P := fun _ ls => ls = []) (silent_states (fun _ _ _ => rfl) _ _) fun _ => rfl)
      (Appends.silent (P := fun _ ls => ls = []) (silent_translateEdges (fun _ => rfl)
        (fun _ _ _ _ _ => rfl) _ _) fun _ => rfl)).weaken fun _ ls added => ?_
    obtain ⟨front, _, _, declared, rfl, rfl, rfl⟩ := added
    rw [List.append_nil, List.append_nil]
    exact declared
  have processes := appends_translateProcesses (B := fun ctx r => LinesOfVariables env (some r) ctx r.templ.vars)
    (show [Line.system sysname].filter isDeclared = [] from rfl)
    (appends_declarations (fun _ => id) none [] tas.globals)
    fun p _ values _ => inst (prefixOf env p values) p _
  refine processes.bind fun _ ls added => ?_
  obtain ⟨_, front, blocks, declared, rounds, rfl⟩ := added
  refine Appends.silent (silent_ending fun l ending => ?_) fun _ => ?_
  · cases l <;> first | rfl | cases ending
  · rw [List.append_nil]
    exact ⟨front, blocks, declared, rounds, rfl⟩

/-- A `clock` or `int` line of the output belongs to a declaration. -/
theorem exists_declaration {st st' : TrState} (nothing : st.lines = [])
    (run : exec (translateSystem env sysname tas) st = (.ok (), st')) {l : Line} (listed : l ∈ st'.lines)
    (isLine : isDeclared l = true) :
    (∃ c ∈ tas.globals.vars.tail, ∃ ls, DeclarationLines env none (addPrefix [] (env.getName c))
      (stripLabels (env.getType c)) (env.initialiser c) ls ∧ l ∈ ls) ∨
    ∃ i ∈ instances env tas.processes, ∃ c ∈ i.2.templ.vars, ∃ ls, DeclarationLines env (some i.2)
      (addPrefix i.1 (env.getName c)) (stripLabels (env.getType c)) (env.initialiser c) ls ∧ l ∈ ls := by
  obtain ⟨front, blocks, globals, rounds, lines⟩ := picked_of_appends appends_declaredLines nothing run
  have member : l ∈ front ++ blocks.flatten := by
    rw [← lines]
    exact (mem_picked isLine).mpr listed
  have inDeclaration {p : Option Instance} {ctx : ContextPrefix} {vars : List Symbol} {ls : List Line}
      (declared : LinesOfVariables env p ctx vars ls) (inside : l ∈ ls) : ∃ c ∈ vars, ∃ ls,
        DeclarationLines env p (addPrefix ctx (env.getName c)) (stripLabels (env.getType c))
          (env.initialiser c) ls ∧ l ∈ ls := by
    obtain ⟨blocks, rounds, rfl⟩ := declared
    obtain ⟨block, one, member⟩ := List.mem_flatten.mp inside
    obtain ⟨c, variable', printed⟩ := exists_of_forall₂ rounds.flip one
    exact ⟨c, variable', block, printed, member⟩
  rcases List.mem_append.mp member with inFront | inBlock
  · exact .inl (inDeclaration globals inFront)
  · obtain ⟨block, one, member⟩ := List.mem_flatten.mp inBlock
    obtain ⟨i, inst, declared⟩ := exists_of_forall₂ rounds.flip one
    exact .inr ⟨i, inst, inDeclaration declared member⟩

end

end Utot
