import Utot.Meaning.Declared
import Utot.Run.Supported

/-!
# Declarations the type checker accepts

The expressions a declaration consults are those of its type and of its initialiser.
Where the type checker accepts them and the native stack is deep enough, an evaluation
is stopped exactly when it reaches a faulty step; so the declaration pass aborts on the
faulty expressions and on the types it does not support.
-/

namespace Utot

open Utap Library Filter

/-! ## Consulted expressions -/

/-- `x` is a bound of a range in a type: of the type itself, of a dimension or of a cell. -/
inductive BoundIn (x : Expr) : Ty → Prop where
  | range {t : Ty} {lower upper : Expr} (ranged : t.getRange? = some (lower, upper))
      (bound : x = lower ∨ x = upper) : BoundIn x t
  | dimension {t size : Ty} (sized : t.getArraySize? = some size) (inside : BoundIn x size) : BoundIn x t
  | cell {sub size : Ty} (inside : BoundIn x sub) : BoundIn x (.array sub size)
  | label {name : String} {t : Ty} (inside : BoundIn x t) : BoundIn x (.label name t)
  | ref {t : Ty} (inside : BoundIn x t) : BoundIn x (.ref t)

/-- `x` is an expression the declaration of a variable can evaluate. -/
inductive Consulted (env : Env) (t : Ty) (init : Option Expr) (x : Expr) : Prop where
  | bound (inside : BoundIn x t)
  | entry {e : Expr} (given : init = some e) (inside : Inside x e)
  | named {e list : Expr} (given : init = some e) (named : namedInitialiser env e = .ok list)
      (inside : x ∈ list.subs ∨ BoundIn x list.type)

theorem boundIn_stripLabels {x : Expr} : ∀ {t : Ty}, BoundIn x (stripLabels t) → BoundIn x t
  | .label _ t, inside => .label (boundIn_stripLabels (t := t) inside)
  | .prim _, inside => inside
  | .pre _ _, inside => inside
  | .ref _, inside => inside
  | .range _ _ _, inside => inside
  | .array _ _, inside => inside
  | .record _ _, inside => inside

theorem boundIn_stripRefsAndLabels {x : Expr} : ∀ {t : Ty}, BoundIn x (stripRefsAndLabels t) → BoundIn x t
  | .label _ t, inside => .label (boundIn_stripRefsAndLabels (t := t) inside)
  | .ref t, inside => .ref (boundIn_stripRefsAndLabels (t := t) inside)
  | .prim _, inside => inside
  | .pre _ _, inside => inside
  | .range _ _ _, inside => inside
  | .array _ _, inside => inside
  | .record _ _, inside => inside

theorem Consulted.stripLabels {env : Env} {t : Ty} {init : Option Expr} {x : Expr}
    (consulted : Consulted env (Utot.stripLabels t) init x) : Consulted env t init x := by
  cases consulted with
  | bound inside => exact .bound (boundIn_stripLabels inside)
  | entry given inside => exact .entry given inside
  | named given named inside => exact .named given named inside

/-! ## Other faulty expressions -/

section

variable {env : Env} {p : Option Instance} {F G : Expr → Prop} {t sub size : Ty} {init : Option Expr}

/-- What is faulty among the bounds of a range in one sense is so in the other. -/
def WithinBounds (F G : Expr → Prop) (size : Ty) : Prop :=
  ∀ lower upper, size.getRange? = some (lower, upper) → (F lower → G lower) ∧ (F upper → G upper)

theorem withinBounds (within : ∀ x, BoundIn x size → F x → G x) : WithinBounds F G size :=
  fun _ _ ranged => ⟨within _ (.range ranged (.inl rfl)), within _ (.range ranged (.inr rfl))⟩

theorem BoundsStop.mono (within : WithinBounds F G size) (stops : BoundsStop env p F size) :
    BoundsStop env p G size := by
  cases stops with
  | type other => exact .type other
  | lower indexType ranged stops => exact .lower indexType ranged ((within _ _ ranged).1 stops)
  | upper indexType ranged start stops => exact .upper indexType ranged start ((within _ _ ranged).2 stops)

theorem VariableStops.mono (bounds : ∀ x, BoundIn x t → F x → G x)
    (value : ∀ e, init = some e → F e → G e) (stops : VariableStops env p F t init) :
    VariableStops env p G t init := by
  cases stops with
  | kind unsupported => exact .kind unsupported
  | bounds ranged stops => exact .bounds ranged (stops.mono (withinBounds bounds))
  | uninitialised => exact .uninitialised
  | value supported bounded stops => exact .value supported bounded (value _ rfl stops)

/-- An entry of an initialiser consults nothing the initialiser does not consult. -/
theorem inside_of_initialCell {index : Int} {cell : Option Expr} (found : initialCell init index = .ok cell)
    {e : Expr} (given : cell = some e) : ∃ whole, init = some whole ∧ e ∈ whole.subs := by
  cases init with
  | none =>
      cases found
      cases given
  | some whole =>
      obtain ⟨x, listed, same⟩ := Res.bind_eq_ok.mp found
      cases same
      cases given
      exact ⟨whole, rfl, List.mem_of_getElem? (orAssert_eq_ok.mp listed)⟩

theorem CellsStop.mono (bounds : ∀ x, BoundIn x t → F x → G x)
    (entries : ∀ e, init = some e → ∀ x, Inside x e → F x → G x) (stops : CellsStop env p F t init) :
    CellsStop env p G t init := by
  induction stops with
  | cell single number stops =>
      exact .cell single number (stops.mono (fun x inside => bounds x (boundIn_stripLabels inside))
        fun e given => entries e given e .self)
  | bounds stops =>
      exact .bounds (stops.mono (withinBounds fun x inside => bounds x (.dimension rfl inside)))
  | count computed overflow => exact .count computed overflow
  | row entered inside before found _ ih =>
      refine .row entered inside before found (ih (fun x member => bounds x (.cell member)) ?_)
      intro e given x member
      obtain ⟨whole, same, child⟩ := inside_of_initialCell found given
      exact entries whole same x (.sub child member)
  | last entered before limit => exact .last entered before limit

theorem InitialiserStops.mono {e : Expr} (within : ∀ list size, namedInitialiser env e = .ok list →
    list.type.getArraySize? = some size → WithinBounds F G size) (stops : InitialiserStops env p F e) :
    InitialiserStops env p G e := by
  cases stops with
  | notArray other => exact .notArray other
  | noData array named undefined => exact .noData array named undefined
  | noSize array named missing => exact .noSize array named missing
  | bounds array named sized stops =>
      exact .bounds array named sized (stops.mono (within _ _ named sized))
  | count array named sized computed overflow => exact .count array named sized computed overflow

theorem ElementStops.mono {val : Option Expr} (bounds : ∀ x, BoundIn x t → F x → G x)
    (value : ∀ e, val = some e → F e → G e) (stops : ElementStops env p F t val) :
    ElementStops env p G t val := by
  cases stops with
  | lower number ranged stops => exact .lower number ranged (bounds _ (.range ranged (.inl rfl)) stops)
  | upper number ranged start stops =>
      exact .upper number ranged start (bounds _ (.range ranged (.inr rfl)) stops)
  | value bounded stops => exact .value bounded (value _ rfl stops)

theorem ArrayStops.mono (within : ∀ x, Consulted env (.array sub size) init x → F x → G x)
    (stops : ArrayStops env p F sub size init) : ArrayStops env p G sub size init := by
  cases stops with
  | bounds stops =>
      exact .bounds (stops.mono (withinBounds fun x inside => within x (.bound (.dimension rfl inside))))
  | initialiser bounded looks given stops =>
      refine .initialiser bounded looks given (stops.mono fun _ _ named sized => withinBounds ?_)
      exact fun x inside => within x (.named given named (.inr (.dimension sized inside)))
  | count whole overflow => exact .count whole overflow
  | element whole noClock stops =>
      obtain ⟨_, _, rfl, _, compared⟩ := oneDimDeclaration_facts whole
      refine .element whole noClock (stops.mono ?_ ?_)
      · exact fun x inside => within x (.bound (.cell (boundIn_stripRefsAndLabels inside)))
      · intro x same
        cases init with
        | none =>
            cases compared
            cases same
        | some e =>
            obtain ⟨list, _, _, _, first, rest, named, _, _, _, subs, val, _⟩ :=
              areAllEqualsInList_facts compared
            cases val.symm.trans same
            exact within _ (.named rfl named (.inl (by rw [subs]; exact List.mem_cons_self)))
  | cells split stops =>
      exact .cells split (stops.mono (fun x inside => within x (.bound inside))
        fun _ given x inside => within x (.entry given inside))

/-- Whether a declaration stops depends on the expressions it consults. -/
theorem DeclarationStops.mono (within : ∀ x, Consulted env t init x → F x → G x)
    (stops : DeclarationStops env p F t init) : DeclarationStops env p G t init := by
  cases stops with
  | variable' kind stops =>
      exact .variable' kind (stops.mono (fun x inside => within x (.bound inside))
        fun e given => within e (.entry given .self))
  | array stops => exact .array (stops.mono within)

end

/-! ## Promises -/

/-- No deeper stack changes the evaluation of the expression. -/
def DeepEnough (env : Env) (p : Option Instance) (e : Expr) : Prop :=
  ∀ depth, env.stack ≤ depth → evalAux env depth p e = evalIntegerConstant env p e

/-- The expressions a declaration consults are type-checked, and the stack is deep enough
for them. -/
def Promised (env : Env) (p : Option Instance) (s : Symbol) : Prop :=
  ∀ x, Consulted env (env.getType s) (env.initialiser s) x → TypeChecked env p x ∧ DeepEnough env p x

section

variable {env : Env} {p : Option Instance} {x : Expr} {s : Symbol}

theorem halts_iff_faulty (checked : TypeChecked env p x) (deep : DeepEnough env p x) :
    Halts env p x ↔ Faulty env p x := by
  constructor
  · rintro ⟨f, failed, aborts⟩
    exact faulty_of_evalAux checked failed aborts
  · intro faulty
    obtain ⟨enough, stopped⟩ := eventually_atTop.mp (stops_of_faulty faulty)
    have stops := stopped (max enough env.stack) (Nat.le_max_left _ _)
    rwa [deep _ (Nat.le_max_right _ _)] at stops

theorem declarationStops_iff_faulty (promised : Promised env p s) :
    DeclarationStops env p (Halts env p) (stripLabels (env.getType s)) (env.initialiser s) ↔
      DeclarationStops env p (Faulty env p) (stripLabels (env.getType s)) (env.initialiser s) := by
  have same (x : Expr) (consulted : Consulted env (stripLabels (env.getType s)) (env.initialiser s) x) :
      Halts env p x ↔ Faulty env p x := by
    obtain ⟨checked, deep⟩ := promised x consulted.stripLabels
    exact halts_iff_faulty checked deep
  exact ⟨fun stops => stops.mono fun x consulted => (same x consulted).mp,
    fun stops => stops.mono fun x consulted => (same x consulted).mpr⟩

end

/-! ## The pass -/

/-- Some declaration of a list stops the pass, given the expressions that stop the evaluator,
and those before it are printed. -/
def SomeStops (env : Env) (p : Option Instance) (faulty : Expr → Prop) (listed : List Symbol) : Prop :=
  ∃ before s after, listed = before ++ s :: after ∧
    (∀ c ∈ before, DeclarationPrints env p (stripLabels (env.getType c)) (env.initialiser c)) ∧
    DeclarationStops env p faulty (stripLabels (env.getType s)) (env.initialiser s)

theorem someStops_iff_faulty {env : Env} {p : Option Instance} {listed : List Symbol}
    (promised : ∀ s ∈ listed, Promised env p s) :
    SomeStops env p (Halts env p) listed ↔ SomeStops env p (Faulty env p) listed := by
  refine exists_congr fun before => exists_congr fun s => exists_congr fun after => ?_
  refine and_congr_right fun split => and_congr_right fun _ => ?_
  exact declarationStops_iff_faulty (promised s (by rw [split]; simp))

/-- The declaration pass is stopped by an assertion or by undefined behaviour if and only if
some declaration stops and those before it are printed; among type-checked declarations an
expression stops it that reaches a faulty step. -/
theorem declarations_abort_iff (env : Env) (p : Option Instance) (ctx : ContextPrefix)
    (decl : Declarations) (st : TrState) :
    (Stops (exec (translateDeclarations env p ctx decl) st).1 ↔
      SomeStops env p (Halts env p) (visitedVariables p decl)) ∧
    ((∀ s ∈ visitedVariables p decl, Promised env p s) →
      (Stops (exec (translateDeclarations env p ctx decl) st).1 ↔
        SomeStops env p (Faulty env p) (visitedVariables p decl))) := by
  have stopped := declarations_stop_iff env p ctx decl st
  exact ⟨stopped, fun promised => stopped.trans (someStops_iff_faulty promised)⟩

/-! ## Two declarations that abort -/

/-- `int[0,5] v = 1 / 0;` behind the clock `t(0)`. -/
def quotientEnv : Env := envOfSymbols
  [⟨"t(0)", .prim .clock, false, none⟩,
    ⟨"v", .range (.prim .int) (.createConstant 0) (.createConstant 5), false, some ⟨some quotientByZero⟩⟩]

theorem promised_quotientEnv : Promised quotientEnv none 1 := by
  have number (n : Int) (fits : IsInt n) : TypeChecked quotientEnv none (.createConstant n) ∧
      DeepEnough quotientEnv none (.createConstant n) := by
    refine ⟨.node ⟨fits, fun _ => rfl⟩ fun x listed => absurd listed List.not_mem_nil, fun depth deep => ?_⟩
    obtain ⟨d, rfl⟩ := Nat.exists_eq_add_of_le deep
    rw [show quotientEnv.stack + d = d + 19 + 1 from Nat.add_comm _ _]
    rfl
  have zero := number 0 ⟨by decide, by decide⟩
  have one := number 1 ⟨by decide, by decide⟩
  have operand (x : Expr) (listed : x ∈ quotientByZero.subs) :
      TypeChecked quotientEnv none x ∧ DeepEnough quotientEnv none x := by
    rcases List.mem_pair.mp listed with rfl | rfl
    · exact one
    · exact zero
  have plain (x : Expr) : ¬ BoundIn x (.prim .int) := by
    intro inside
    cases inside with
    | range ranged => cases ranged
    | dimension sized => cases sized
  intro x consulted
  cases consulted with
  | bound inside =>
      cases inside with
      | range ranged bound =>
          cases ranged
          rcases bound with rfl | rfl
          · exact zero
          · exact number 5 ⟨by decide, by decide⟩
      | dimension sized => cases sized
  | entry given inside =>
      cases given
      cases inside with
      | self =>
          refine ⟨.node trivial fun y listed => (operand y listed).1, fun depth deep => ?_⟩
          obtain ⟨d, rfl⟩ := Nat.exists_eq_add_of_le deep
          rw [show quotientEnv.stack + d = d + 18 + 1 + 1 from Nat.add_comm _ _]
          rfl
      | sub child inside =>
          rcases List.mem_pair.mp child with rfl | rfl
          · cases inside with
            | self => exact one
            | sub child => cases child
          · cases inside with
            | self => exact zero
            | sub child => cases child
  | named given named inside =>
      cases given
      cases named
      rcases inside with listed | inside
      · exact operand x listed
      · exact absurd inside (plain x)

/-- The faulty initialiser stops the pass. -/
theorem declarations_abort_quotient :
    Stops (exec (translateDeclarations quotientEnv none [] ⟨[0, 1], [], []⟩) .initial).1 := by
  refine ((declarations_abort_iff quotientEnv none [] ⟨[0, 1], [], []⟩ .initial).2 ?_).mpr ?_
  · intro s listed
    cases List.mem_singleton.mp listed
    exact promised_quotientEnv
  · have faulty : Faulty quotientEnv none quotientByZero :=
      .here (.operation rfl rfl (.constant rfl) (.constant rfl) fun defined => defined.1 rfl)
    refine ⟨[], 1, [], rfl, fun c inside => absurd inside List.not_mem_nil, .variable' rfl ?_⟩
    exact .value rfl rfl faulty

/-- `struct { int[0,1] x; } s[2];` behind the clock `t(0)`. -/
def recordEnv : Env := envOfSymbols
  [⟨"t(0)", .prim .clock, false, none⟩,
    ⟨"s", .array (.record ["x"] [.range (.prim .int) (.createConstant 0) (.createConstant 1)])
      (.range (.prim .int) (.createConstant 0) (.createConstant 1)), false, some ⟨none⟩⟩]

/-- An array of structures passes the filter of unsupported kinds, which looks at the
outermost kind only, and its first cell fails an assertion. -/
theorem record_cells_abort :
    (exec (translateDeclarations recordEnv none [] ⟨[0, 1], [], []⟩) .initial).1 =
      .error (.assertion "kind == BOOL || kind == RANGE || kind == CONSTANT") := by
  rfl

end Utot
