import Utot.Parameters.Chains
import Utot.Parameters.Termination

/-!
# Lazy resolution is substitution

The printers look parameters and select variables up in one flat mapping.  For
every chain of instantiations this ends.  What is printed is what is printed
without a mapping once the arguments of each level have been substituted, exactly
if no subscript on the way is resolved differently.
-/

namespace Utot

open Filter Utap Library

/-! ## The order of the declarations -/

/-- Symbols are declared before they are used, and what is global uses what is global. -/
structure DeclaredInOrder (env : Env) (isGlobal : Symbol → Prop) (p : Instance) (select : List Symbol)
    (order : Symbol → Nat) : Prop where
  earlier : ∀ s init, env.initialiser s = some init → ∀ x ∈ init.symbols, order x < order s
  globals : ∀ s init, isGlobal s → env.initialiser s = some init → ∀ x ∈ init.symbols, isGlobal x
  /-- Parameters and select variables have no data. -/
  plain : ∀ s ∈ select ++ p.parameters, env.getData s = none

section

variable {env : Env} {isGlobal : Symbol → Prop} {p : Instance} {levels : List Level}
  {values : List Int} {select : List Symbol} {picked : List Int} {order : Symbol → Nat} {s : Symbol}

/-- Only parameters and select variables are bound, to expressions over parameters and
global symbols. -/
theorem Chain.binding (chain : Chain isGlobal p levels) {argument : Expr}
    (bound : (allLevels p levels values select picked).flatten.lookup s = some argument) :
    s ∈ select ++ p.parameters ∧ ∀ x ∈ argument.symbols, x ∈ p.parameters ∨ isGlobal x := by
  have built := chain.built
  obtain ⟨level, listed, inside⟩ := List.mem_flatten.mp (mem_of_lookup bound)
  have constant {symbols : List Symbol} {values : List Int}
      (inside : (s, argument) ∈ valueLevel symbols values) :
      ∀ x ∈ argument.symbols, x ∈ p.parameters ∨ isGlobal x := by
    intro x there
    rw [symbols_of_valueLevel inside] at there
    cases there
  rcases List.mem_cons.mp listed with rfl | listed
  · exact ⟨List.mem_append_left _ (List.of_mem_zip inside).1, constant inside⟩
  rcases List.mem_append.mp listed with listed | listed
  · refine ⟨List.mem_append_right _ ?_, built.visible level listed _ inside⟩
    exact List.mem_of_mem_drop (built.keys level listed _ inside)
  · rw [List.mem_singleton.mp listed] at inside
    refine ⟨List.mem_append_right _ ?_, constant inside⟩
    exact List.mem_of_mem_take (List.mem_reverse.mp (List.of_mem_zip inside).1)

/-- No symbol refers to itself: arguments lead to later levels, initialisers to earlier
declarations, and no argument leads back from the globals. -/
theorem wellFounded_refers (chain : Chain isGlobal p levels) (fresh : FreshSelect isGlobal p select)
    (declared : DeclaredInOrder env isGlobal p select order) (counted : picked.length = select.length)
    {q : Option Instance}
    (flat : ∀ s, mapped? q s = (allLevels p levels values select picked).flatten.lookup s) :
    WellFounded (Refers env q) := by
  have layered := @Chain.layered _ _ _ values _ _ chain fresh counted
  have binding {s : Symbol} {argument : Expr} (bound : mapped? q s = some argument) :
      s ∈ select ++ p.parameters ∧ ∀ x ∈ argument.symbols, x ∈ p.parameters ∨ isGlobal x := by
    rw [flat] at bound
    exact chain.binding bound
  have outside {s : Symbol} (own : s ∈ select ++ p.parameters) : ¬ isGlobal s := by
    rcases List.mem_append.mp own with own | own
    · exact (fresh.fresh s own).2
    · exact chain.built.inside s own
  -- global symbols, by the order of their declarations
  have globals (s : Symbol) : isGlobal s → Acc (Refers env q) s := by
    induction s using (measure order).wf.induction with
    | _ s ih =>
        intro here
        refine Acc.intro s fun x refers => ?_
        rcases refers with ⟨init, given, inside⟩ | ⟨argument, bound, _⟩
        · exact ih x (declared.earlier s init given x inside) (declared.globals s init here given x inside)
        · exact absurd here (outside (binding bound).1)
  -- parameters and select variables, by their levels
  have parameters (s : Symbol) : s ∈ select ++ p.parameters → Acc (Refers env q) s := by
    induction s using (measure (height (allLevels p levels values select picked))).wf.induction with
    | _ s ih =>
        intro own
        refine Acc.intro s fun x refers => ?_
        rcases refers with ⟨init, given, _⟩ | ⟨argument, bound, inside⟩
        · rw [Env.initialiser, declared.plain s own] at given
          cases given
        · rcases (binding bound).2 x inside with inner | isGlobal
          · rw [flat] at bound
            exact ih x (height_lt layered bound inside) (List.mem_append_right _ inner)
          · exact globals x isGlobal
  refine ⟨fun s => ?_⟩
  induction s using (measure order).wf.induction with
  | _ s ih =>
      refine Acc.intro s fun x refers => ?_
      rcases refers with ⟨init, given, inside⟩ | ⟨argument, bound, inside⟩
      · exact ih x (declared.earlier s init given x inside)
      · rcases (binding bound).2 x inside with inner | isGlobal
        · exact parameters x (List.mem_append_right _ inner)
        · exact globals x isGlobal

end

/-! ## Resolution -/

/-- The levels are substituted one after the other, also in the initialisers of constants. -/
def Utap.Env.substLevels (levels : List Level) (env : Env) : Env :=
  levels.foldl (fun env level => env.subst level.bindings) env

theorem Utap.Env.substLevels_eq (levels : List Level) (env : Env) :
    env.substLevels levels = env.subst (solution levels) := by
  induction levels generalizing env with
  | nil => exact env.subst_none.symm
  | cons level rest ih =>
      change (env.subst level.bindings).substLevels rest = _
      rw [ih, Env.subst_subst]
      rfl

/-- What the type checker promises about an expression of an edge: every node is well
typed, bounds of indices read no variables, and arguments fit. -/
structure Resolvable (env : Env) (q : Option Instance) (e : Expr) : Prop where
  typed : ∀ x, Meets env q x e → WellTyped x
  ranges : ∀ x size lower upper, Meets env q x e → x.type.getArraySize? = some size →
    size.getRange? = some (lower, upper) →
      ¬ RestsOnParameter env q true lower ∧ ¬ RestsOnParameter env q true upper
  arguments : ArgumentsFit env q e

/-- Printing `e` with the mapping of `q` ends, and gives the text after the substitution of
the levels exactly if that leaves the printer unaffected. -/
structure ResolvedBy (env : Env) (q : Option Instance) (levels : List Level) (ctx : ContextPrefix)
    (e : Expr) : Prop where
  terminates : ∀ᶠ stack in atTop, Returns (translateExpression (env.withStack stack) q e ctx) ∧
    Returns (translateEventExpression (env.withStack stack) q e ctx)
  expression : ∀ text, translateExpression env q e ctx = .ok text →
    (translateExpression (env.substLevels levels) none (substLevels levels e) ctx = .ok text ↔
      Unaffected env (solution levels) q e)
  event : ∀ text, translateEventExpression env q e ctx = .ok text →
    (translateEventExpression (env.substLevels levels) none (substLevels levels e) ctx = .ok text ↔
      ClosedChannel env q e)
  /-- No parameter and no select variable is left. -/
  absent : ∀ x ∈ (substLevels levels e).symbols, mapped? q x = none
  /-- Their names are of no account. -/
  anonymous : ∀ names : Symbol → String, (∀ s, mapped? q s = none → names s = env.getName s) →
    Lifts (translateExpression env q e ctx) (translateExpression (env.renamed names) q e ctx) ∧
      Lifts (translateEventExpression env q e ctx) (translateEventExpression (env.renamed names) q e ctx)

section

variable {env : Env} {isGlobal : Symbol → Prop} {p r q : Instance} {levels : List Level}
  {select : List Symbol} {order : Symbol → Nat} {ctx : ContextPrefix} {e : Expr}

/-- The values the select variables have been bound to. -/
theorem selects_values (selects : Selects env select r q) : ∃ picked : List Int,
    picked.length = select.length ∧ q = bindTuple bindConstant select r picked := by
  induction selects with
  | done p => exact ⟨[], rfl, rfl⟩
  | @bind sel rest p q min max i bounds lower upper later ih =>
      obtain ⟨picked, counted, same⟩ := ih
      exact ⟨i :: picked, congrArg Nat.succ counted, same⟩

/-- The mapping that has been merged for an edge is resolved as a substitution would do it. -/
theorem resolution_is_substitution (chain : Chain isGlobal p levels) (inst : InstanceOf env p ctx r)
    (selects : Selects env select r q) (fresh : FreshSelect isGlobal p select)
    (declared : DeclaredInOrder env isGlobal p select order) (resolvable : Resolvable env (some q) e) :
    ∃ values picked, values.length = (openParameters p).length ∧ picked.length = select.length ∧
      q = bindTuple bindConstant select (instanceWith p values) picked ∧
        ResolvedBy env (some q) (allLevels p levels values select picked) ctx e := by
  obtain ⟨values, count, _, rfl⟩ := instanceOf_values inst
  obtain ⟨picked, counted, rfl⟩ := selects_values selects
  refine ⟨values, picked, count, counted, rfl, ?_⟩
  have flat := chain.lookup fresh count counted
  have layered := @Chain.layered _ _ _ values _ _ chain fresh counted
  have solved : Solves (solution (allLevels p levels values select picked))
      (some (bindTuple bindConstant select (instanceWith p values) picked)) := by
    intro s
    rw [flat s]
    exact solution_eq layered s
  have evaluable : Evaluable env (some (bindTuple bindConstant select (instanceWith p values) picked)) e := by
    refine ⟨fun s argument bound => ?_, resolvable.typed, resolvable.ranges⟩
    rw [flat s] at bound
    exact declared.plain s (chain.binding bound).1
  constructor
  · exact eventually_printers_return (wellFounded_refers chain fresh declared counted flat) resolvable.typed
  · intro text printed
    rw [Env.substLevels_eq, substLevels_eq]
    exact translateExpression_subst_iff solved evaluable resolvable.arguments printed
  · intro text printed
    rw [Env.substLevels_eq, substLevels_eq]
    exact translateEventExpression_subst_iff solved evaluable resolvable.arguments printed
  · intro x inside
    rw [flat x]
    exact substLevels_free layered e x inside
  · intro names agree
    exact ⟨lifts_translateAux_renamed agree (Nat.le_refl _) e ctx,
      lifts_translateEventAux_renamed agree (Nat.le_refl _) e ctx⟩

end

/-! ## A partial instantiation -/

/-- The parameters of `T(const int N, bool &g[2])` and `P(const int[0,1] M) = T(M, f)`, the
global `bool f[2] = { true, false }` and a select variable `i`; the template has the array
`int[0,1] a[2] = { N, 0 }`, and `const int k[2] = { 3, 5 }` is global. -/
def partialEnv : Env :=
  envOfSymbols [⟨"N", .pre .constant (.prim .int), true, none⟩,
    ⟨"g", .ref (.array (.prim .bool) bitType), true, none⟩,
    ⟨"M", .pre .constant bitType, true, none⟩,
    ⟨"i", bitType, true, none⟩,
    ⟨"f", .array (.prim .bool) bitType, false, some ⟨some (.nary .list
      [.constant 1 (.prim .bool), .constant 0 (.prim .bool)] (.array (.prim .bool) bitType))⟩⟩,
    ⟨"k", .array (.pre .constant (.prim .int)) bitType, false, some ⟨some (.nary .list
      [Expr.createConstant 3, Expr.createConstant 5] (.array (.pre .constant (.prim .int)) bitType))⟩⟩,
    ⟨"a", .array bitType bitType, true, some ⟨some (.nary .list
      [.identifier 0 (.pre .constant (.prim .int)), Expr.createConstant 0] (.array bitType bitType))⟩⟩,
    ⟨"P", .prim .unknown, false, none⟩]

/-- The symbols of the global frame. -/
def partialGlobal (s : Symbol) : Prop := s = 4 ∨ s = 5

def partialTemplate : Instance :=
  { uid := 7, parameters := [0, 1], mapping := ∅, unbound := 2
    templ := { vars := [6], iodecl := [], functions := [], init := 0, states := [], edges := [] } }

/-- `M` and `f`. -/
def partialArguments : List Expr :=
  [.identifier 2 (.pre .constant bitType), .identifier 4 (.array (.prim .bool) bitType)]

def partialProcess : Instance := addInstance 7 partialTemplate [2] partialArguments

/-- The instance with `M` bound to 1 and `i` to 0. -/
def partialInstance : Instance := bindTuple bindConstant [3] (instanceWith partialProcess [1]) [0]

theorem chain_partialProcess : Chain partialGlobal partialProcess [[0, 1].zip partialArguments] := by
  have template : Chain partialGlobal partialTemplate [] := by
    refine .template (fun s => ?_) rfl (by decide) fun s listed isGlobal => ?_
    · exact Std.TreeMap.getElem?_emptyc
    · rcases isGlobal with rfl | rfl <;> revert listed <;> decide
  refine .refined 7 template rfl (by decide) (fun s listed => ?_) fun e listed x inside => ?_
  · rw [List.mem_singleton.mp listed]
    exact ⟨by decide, by rintro (same | same) <;> cases same⟩
  · rcases List.mem_pair.mp listed with rfl | rfl
    · exact .inl (by simpa [Expr.symbols, Ty.symbols, bitType] using inside)
    · exact .inr (.inl (by simpa [Expr.symbols, Ty.symbols, bitType] using inside))

theorem instanceOf_partialProcess : InstanceOf partialEnv partialProcess ["P", "M_1"]
    (instanceWith partialProcess [1]) := by
  exact ⟨_, .bind (i := 1) rfl rfl (by decide) (by decide) (.done _ _), rfl⟩

theorem selects_partialInstance :
    Selects partialEnv [3] (instanceWith partialProcess [1]) partialInstance :=
  .bind rfl (by decide) (by decide) (.done _)

theorem fresh_partialProcess : FreshSelect partialGlobal partialProcess [3] := by
  refine ⟨by decide, fun s listed => ?_⟩
  rw [List.mem_singleton.mp listed]
  exact ⟨by decide, by rintro (same | same) <;> cases same⟩

theorem declared_partialEnv : DeclaredInOrder partialEnv partialGlobal partialProcess [3] fun s => s := by
  have given {s : Symbol} {init : Expr} (given : partialEnv.initialiser s = some init) :
      ∀ x ∈ init.symbols, s = 6 ∧ x = 0 := by
    match s with
    | 0 | 1 | 2 | 3 | 7 | n + 8 => cases given
    | 4 | 5 | 6 =>
        cases given
        simp [Expr.symbols, Expr.symbolsOf, Ty.symbols, bitType, Expr.createConstant]
  constructor
  · intro s init written x inside
    obtain ⟨rfl, rfl⟩ := given written x inside
    decide
  · intro s init isGlobal written x inside
    obtain ⟨rfl, rfl⟩ := given written x inside
    rcases isGlobal with same | same <;> cases same
  · decide

theorem mapped_partialInstance {s : Symbol} {argument : Expr}
    (bound : mapped? (some partialInstance) s = some argument) :
    (s, argument) ∈ [(3, Expr.createConstant 0), (0, .identifier 2 (.pre .constant bitType)),
      (1, .identifier 4 (.array (.prim .bool) bitType)), (2, Expr.createConstant 1)] := by
  have flat : mapped? (some partialInstance) s = _ :=
    @Chain.lookup _ _ _ [1] _ [0] chain_partialProcess fresh_partialProcess rfl rfl s
  rw [flat] at bound
  exact mem_of_lookup bound

/-- Expressions nothing leads out of are all an expression of theirs meets. -/
theorem mem_of_meets {env : Env} {q : Option Instance} {xs : List Expr} {e x : Expr}
    (closed : ∀ y ∈ xs, ∀ x, Next env q x y → x ∈ xs) (listed : e ∈ xs) (met : Meets env q x e) :
    x ∈ xs := by
  induction met using Relation.ReflTransGen.head_induction_on with
  | refl => exact listed
  | head next _ ih => exact closed _ ih _ next

/-- `N + i`. -/
def partialSum : Expr :=
  .binary .plus (.identifier 0 (.pre .constant (.prim .int))) (.identifier 3 bitType) (.prim .int)

def partialSumExprs : List Expr :=
  [partialSum, .identifier 0 (.pre .constant (.prim .int)), .identifier 3 bitType,
    .identifier 2 (.pre .constant bitType), Expr.createConstant 1, Expr.createConstant 0]

theorem meets_partialSum {x : Expr} (met : Meets partialEnv (some partialInstance) x partialSum) :
    x ∈ partialSumExprs := by
  have noArray : ∀ y ∈ partialSumExprs, y.type.getArraySize? = none := by
    simp [partialSumExprs, partialSum, Expr.type, Expr.createConstant, Ty.getArraySize?, bitType]
  refine mem_of_meets (fun y listed x next => ?_) List.mem_cons_self met
  cases next with
  | sub child =>
      revert y x
      simp [partialSumExprs, partialSum, Expr.subs, Expr.createConstant]
  | @argument s t bound =>
      have inside := mapped_partialInstance bound
      simp only [List.mem_cons, Prod.mk.injEq, List.not_mem_nil, or_false] at inside
      rcases inside with ⟨rfl, rfl⟩ | ⟨rfl, rfl⟩ | ⟨rfl, rfl⟩ | ⟨rfl, rfl⟩
      · simp [partialSumExprs]
      · simp [partialSumExprs]
      · simp [partialSumExprs, partialSum, Expr.createConstant] at listed
      · simp [partialSumExprs]
  | @initialiser s t given =>
      simp only [partialSumExprs, partialSum, Expr.createConstant, List.mem_cons, reduceCtorEq,
        Expr.identifier.injEq, List.not_mem_nil, or_false, false_or] at listed
      rcases listed with ⟨rfl, _⟩ | ⟨rfl, _⟩ | ⟨rfl, _⟩ <;> cases given
  | lower sized => cases (noArray y listed).symm.trans sized
  | upper sized => cases (noArray y listed).symm.trans sized

theorem resolvable_partialSum : Resolvable partialEnv (some partialInstance) partialSum := by
  have noArray : ∀ y ∈ partialSumExprs, y.type.isArray = false := by
    simp [partialSumExprs, partialSum, Expr.type, Expr.createConstant, Ty.isArray, Ty.is, bitType]
  constructor
  · intro x met
    have listed := meets_partialSum met
    simp only [partialSumExprs, List.mem_cons, List.not_mem_nil, or_false] at listed
    rcases listed with rfl | rfl | rfl | rfl | rfl | rfl
    · trivial
    · trivial
    · trivial
    · trivial
    · exact ⟨⟨by decide, by decide⟩, fun _ => rfl⟩
    · exact ⟨⟨by decide, by decide⟩, fun _ => rfl⟩
  · intro x size lower upper met sized
    have single := noArray x (meets_partialSum met)
    rw [isArray_of_getArraySize? sized] at single
    cases single
  · intro s t argument printed bound
    have inside := meets_of_printedIn printed
    have single : t.isArray = false := noArray _ (meets_partialSum inside)
    have single' := noArray _ (meets_partialSum (.head (.argument bound) inside))
    rw [shape_eq_nil single, shape_eq_nil single']

def partialAll : List Level := allLevels partialProcess [[0, 1].zip partialArguments] [1] [3] [0]

/-- `N + i` is printed like `1 + 0`. -/
theorem resolution_of_sum : ∃ values picked : List Int,
    values.length = (openParameters partialProcess).length ∧ picked.length = [3].length ∧
      partialInstance = bindTuple bindConstant [3] (instanceWith partialProcess values) picked ∧
        ResolvedBy partialEnv (some partialInstance)
          (allLevels partialProcess [[0, 1].zip partialArguments] values [3] picked) ["P", "M_1"] partialSum :=
  resolution_is_substitution chain_partialProcess instanceOf_partialProcess selects_partialInstance
    fresh_partialProcess declared_partialEnv resolvable_partialSum

example : translateExpression partialEnv (some partialInstance) partialSum ["P", "M_1"] = .ok "(1 + 0)" := rfl

/-- `g[0]`. -/
def partialFlag : Expr :=
  .binary .array (.identifier 1 (.ref (.array (.prim .bool) bitType))) (Expr.createConstant 0) (.prim .bool)

/-- `f`, after which `g` is. -/
def partialFlags : Expr := .identifier 4 (.array (.prim .bool) bitType)

def partialFlagExprs : List Expr :=
  [partialFlag, .identifier 1 (.ref (.array (.prim .bool) bitType)), partialFlags,
    .nary .list [.constant 1 (.prim .bool), .constant 0 (.prim .bool)] (.array (.prim .bool) bitType),
    .constant 1 (.prim .bool), .constant 0 (.prim .bool), Expr.createConstant 1, Expr.createConstant 0]

theorem bounds_partialFlag : ∀ y ∈ partialFlagExprs, ∀ size lower upper,
    y.type.getArraySize? = some size → size.getRange? = some (lower, upper) →
      lower = Expr.createConstant 0 ∧ upper = Expr.createConstant 1 := by
  intro y listed size lower upper sized ranged
  simp only [partialFlagExprs, List.mem_cons, List.not_mem_nil, or_false] at listed
  rcases listed with rfl | rfl | rfl | rfl | rfl | rfl | rfl | rfl <;> cases sized <;> cases ranged <;>
    exact ⟨rfl, rfl⟩

theorem meets_partialFlag {x : Expr} (met : Meets partialEnv (some partialInstance) x partialFlag) :
    x ∈ partialFlagExprs := by
  refine mem_of_meets (fun y listed x next => ?_) List.mem_cons_self met
  cases next with
  | sub child =>
      revert y x
      simp [partialFlagExprs, partialFlag, partialFlags, Expr.subs, Expr.createConstant]
  | @argument s t bound =>
      have inside := mapped_partialInstance bound
      simp only [partialFlagExprs, partialFlag, partialFlags, Expr.createConstant, List.mem_cons,
        reduceCtorEq, Expr.identifier.injEq, List.not_mem_nil, or_false, false_or] at listed
      rcases listed with ⟨rfl, _⟩ | ⟨rfl, _⟩
      · simp only [List.mem_cons, Prod.mk.injEq, List.not_mem_nil, or_false] at inside
        simp_all [partialFlagExprs, partialFlags]
      · simp at inside
  | @initialiser s t given =>
      simp only [partialFlagExprs, partialFlag, partialFlags, Expr.createConstant, List.mem_cons,
        reduceCtorEq, Expr.identifier.injEq, List.not_mem_nil, or_false, false_or] at listed
      rcases listed with ⟨rfl, _⟩ | ⟨rfl, _⟩
      · cases given
      · cases given
        simp [partialFlagExprs]
  | @lower e upper size sized ranged =>
      rw [(bounds_partialFlag y listed size x upper sized ranged).1]
      simp [partialFlagExprs]
  | @upper e lower size sized ranged =>
      rw [(bounds_partialFlag y listed size lower x sized ranged).2]
      simp [partialFlagExprs]

theorem resolvable_partialFlag : Resolvable partialEnv (some partialInstance) partialFlag := by
  constructor
  · intro x met
    have listed := meets_partialFlag met
    simp only [partialFlagExprs, List.mem_cons, List.not_mem_nil, or_false] at listed
    rcases listed with rfl | rfl | rfl | rfl | rfl | rfl | rfl | rfl
    · rfl
    · trivial
    · trivial
    · rfl
    all_goals exact ⟨⟨by decide, by decide⟩, fun _ => rfl⟩
  · intro x size lower upper met sized ranged
    obtain ⟨rfl, rfl⟩ := bounds_partialFlag x (meets_partialFlag met) size lower upper sized ranged
    constructor <;> intro reads <;> cases reads
  · intro s t argument printed bound
    have listed := meets_partialFlag (meets_of_printedIn printed)
    have inside := mapped_partialInstance bound
    simp only [partialFlagExprs, partialFlag, partialFlags, Expr.createConstant, List.mem_cons,
      reduceCtorEq, Expr.identifier.injEq, List.not_mem_nil, or_false, false_or] at listed
    rcases listed with ⟨rfl, rfl⟩ | ⟨rfl, rfl⟩
    · have same : argument = partialFlags := by simpa [partialFlags] using inside
      subst same
      rfl
    · simp at inside

/-- `k[a[0]]`. -/
def partialCell : Expr :=
  .binary .array (.identifier 5 (.array (.pre .constant (.prim .int)) bitType))
    (.binary .array (.identifier 6 (.array bitType bitType)) (Expr.createConstant 0) bitType)
    (.pre .constant (.prim .int))

/-- The parameter `g` is taken for an array of TChecker, and `f` is none: `f[0]` is printed
for `g[0]`, and `f_0` for `f[0]`.  The index `a[0]` is folded to the initial value of a
variable, which only the mapping knows. -/
theorem array_parameter_taken_for_array :
    Resolvable partialEnv (some partialInstance) partialFlag ∧
      translateExpression partialEnv (some partialInstance) partialFlag ["P", "M_1"] = .ok "f[0]" ∧
      translateExpression (partialEnv.substLevels partialAll) none (substLevels partialAll partialFlag)
        ["P", "M_1"] = .ok "f_0" ∧
      translateExpression partialEnv (some partialInstance) partialCell ["P", "M_1"] = .ok "k_1" ∧
      translateExpression (partialEnv.substLevels partialAll) none (substLevels partialAll partialCell)
        ["P", "M_1"] ≠ .ok "k_1" := by
  refine ⟨resolvable_partialFlag, rfl, rfl, rfl, fun printed => ?_⟩
  cases printed

end Utot
