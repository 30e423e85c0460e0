import Utot.Meaning.Safety
import Utot.Parameters.Printing

/-!
# Following arguments ends

A symbol refers to the symbols of its initialiser and of its argument.  When this
relation is well founded, so are the recursive calls of the evaluator and of the
printers, and a native stack of some depth is enough for them.
-/

namespace Utot

open Filter Utap Library

/-! ## Sizes and symbols -/

section

variable {e x : Expr} {t size : Ty} {lower upper : Expr} {s : Symbol}

theorem getArraySize?_inside : ∀ {t size : Ty}, t.getArraySize? = some size →
    sizeOf size < sizeOf t ∧ ∀ s ∈ size.symbols, s ∈ t.symbols
  | .prim _, _, sized => by cases sized
  | .pre k t, _, sized => by
      obtain ⟨smaller, inside⟩ := getArraySize?_inside (t := t) sized
      simp only [Ty.pre.sizeOf_spec]
      exact ⟨by omega, inside⟩
  | .ref t, _, sized => by
      obtain ⟨smaller, inside⟩ := getArraySize?_inside (t := t) sized
      simp only [Ty.ref.sizeOf_spec]
      exact ⟨by omega, inside⟩
  | .label name t, _, sized => by
      obtain ⟨smaller, inside⟩ := getArraySize?_inside (t := t) sized
      simp only [Ty.label.sizeOf_spec]
      exact ⟨by omega, inside⟩
  | .range _ _ _, _, sized => by cases sized
  | .array sub size, _, sized => by
      cases sized
      simp only [Ty.array.sizeOf_spec]
      exact ⟨by omega, fun s listed => List.mem_append_right _ listed⟩
  | .record _ _, _, sized => by cases sized

theorem getRange?_inside : ∀ {t : Ty} {bounds : Expr × Expr}, t.getRange? = some bounds →
    ∀ x ∈ [bounds.1, bounds.2], sizeOf x < sizeOf t ∧ ∀ s ∈ x.symbols, s ∈ t.symbols
  | .prim _, _, ranged => by cases ranged
  | .pre k t, _, ranged => fun x listed => by
      obtain ⟨smaller, inside⟩ := getRange?_inside (t := t) ranged x listed
      simp only [Ty.pre.sizeOf_spec]
      exact ⟨by omega, inside⟩
  | .ref t, _, ranged => fun x listed => by
      obtain ⟨smaller, inside⟩ := getRange?_inside (t := t) ranged x listed
      simp only [Ty.ref.sizeOf_spec]
      exact ⟨by omega, inside⟩
  | .label name t, _, ranged => fun x listed => by
      obtain ⟨smaller, inside⟩ := getRange?_inside (t := t) ranged x listed
      simp only [Ty.label.sizeOf_spec]
      exact ⟨by omega, inside⟩
  | .range t lower upper, _, ranged => fun x listed => by
      cases ranged
      simp only [Ty.range.sizeOf_spec]
      rcases List.mem_cons.mp listed with rfl | listed
      · exact ⟨by omega, fun s inside => List.mem_append_right _ (List.mem_append_left _ inside)⟩
      · rw [List.mem_singleton.mp listed]
        dsimp only
        exact ⟨by omega, fun s inside => List.mem_append_right _ (List.mem_append_right _ inside)⟩
  | .array _ _, _, ranged => by cases ranged
  | .record _ _, _, ranged => by cases ranged

theorem mem_symbolsOf {es : List Expr} (listed : x ∈ es) (inside : s ∈ x.symbols) :
    s ∈ Expr.symbolsOf es := by
  induction es with
  | nil => cases listed
  | cons e es ih =>
      rcases List.mem_cons.mp listed with rfl | listed
      · exact List.mem_append_left _ inside
      · exact List.mem_append_right _ (ih listed)

/-- An operand is smaller and has no further symbols. -/
theorem sub_inside (child : x ∈ e.subs) : sizeOf x < sizeOf e ∧ ∀ s ∈ x.symbols, s ∈ e.symbols := by
  cases e with
  | identifier s t => cases child
  | constant v t => cases child
  | unary k y t =>
      cases List.mem_singleton.mp child
      simp only [Expr.unary.sizeOf_spec]
      exact ⟨by omega, fun s inside => List.mem_append_left _ inside⟩
  | binary k l r t =>
      simp only [Expr.binary.sizeOf_spec]
      rcases List.mem_cons.mp child with rfl | child
      · exact ⟨by omega, fun s inside => List.mem_append_left _ inside⟩
      · rw [List.mem_singleton.mp child]
        exact ⟨by omega, fun s inside => List.mem_append_right _ (List.mem_append_left _ inside)⟩
  | inlineIf c y n t =>
      simp only [Expr.inlineIf.sizeOf_spec]
      rcases List.mem_cons.mp child with rfl | child
      · exact ⟨by omega, fun s inside => List.mem_append_left _ inside⟩
      rcases List.mem_cons.mp child with rfl | child
      · exact ⟨by omega, fun s inside => List.mem_append_right _ (List.mem_append_left _ inside)⟩
      · rw [List.mem_singleton.mp child]
        exact ⟨by omega, fun s inside =>
          List.mem_append_right _ (List.mem_append_right _ (List.mem_append_left _ inside))⟩
  | nary k es t =>
      have smaller : sizeOf x < sizeOf es := List.sizeOf_lt_of_mem child
      simp only [Expr.nary.sizeOf_spec]
      exact ⟨by omega, fun s inside => List.mem_append_left _ (mem_symbolsOf child inside)⟩
  | sync k channel =>
      cases List.mem_singleton.mp child
      simp only [Expr.sync.sizeOf_spec]
      exact ⟨by omega, fun s inside => inside⟩

/-- An array type is smaller than the expression that has it. -/
theorem type_inside (array : e.type.getArraySize? = some size) :
    sizeOf e.type < sizeOf e ∧ ∀ s ∈ e.type.symbols, s ∈ e.symbols := by
  cases e with
  | identifier s t => exact ⟨by simp [Expr.type], fun s inside => List.mem_cons_of_mem _ inside⟩
  | constant v t => exact ⟨by simp [Expr.type], fun s inside => inside⟩
  | unary k y t => exact ⟨by simp [Expr.type], fun s inside => List.mem_append_right _ inside⟩
  | binary k l r t =>
      exact ⟨by simp [Expr.type], fun s inside => List.mem_append_right _ (List.mem_append_right _ inside)⟩
  | inlineIf c y n t =>
      exact ⟨by simp [Expr.type], fun s inside =>
        List.mem_append_right _ (List.mem_append_right _ (List.mem_append_right _ inside))⟩
  | nary k es t => exact ⟨by simp [Expr.type], fun s inside => List.mem_append_right _ inside⟩
  | sync k channel => cases array

theorem bound_inside (sized : e.type.getArraySize? = some size)
    (ranged : size.getRange? = some (lower, upper)) :
    ∀ x ∈ [lower, upper], sizeOf x < sizeOf e ∧ ∀ s ∈ x.symbols, s ∈ e.symbols := by
  intro x listed
  obtain ⟨smaller, inside⟩ := getRange?_inside ranged x listed
  obtain ⟨smaller', inside'⟩ := getArraySize?_inside sized
  obtain ⟨smaller'', inside''⟩ := type_inside sized
  exact ⟨by omega, fun s listed => inside'' s (inside' s (inside s listed))⟩

end

/-! ## Calls -/

/-- `x` is written in the initialiser or in the argument of `s`. -/
def Refers (env : Env) (p : Option Instance) (x s : Symbol) : Prop :=
  (∃ init, env.initialiser s = some init ∧ x ∈ init.symbols) ∨
    ∃ argument, mapped? p s = some argument ∧ x ∈ argument.symbols

section

variable {env : Env} {p : Option Instance}

/-- Below an expression whose symbols are settled everything is, by induction on its size. -/
theorem acc_of_symbols (n : Nat) : ∀ e : Expr, sizeOf e ≤ n →
    (∀ s ∈ e.symbols, (∀ init, env.initialiser s = some init → Acc (Next env p) init) ∧
      ∀ argument, mapped? p s = some argument → Acc (Next env p) argument) → Acc (Next env p) e := by
  induction n with
  | zero =>
      intro e small
      cases e <;> simp at small
  | succ n ih =>
      intro e small settled
      have inner {x : Expr} (inside : sizeOf x < sizeOf e ∧ ∀ s ∈ x.symbols, s ∈ e.symbols) :
          Acc (Next env p) x :=
        ih x (by omega) fun s listed => settled s (inside.2 s listed)
      refine Acc.intro e fun x next => ?_
      cases next with
      | sub child => exact inner (sub_inside child)
      | argument bound => exact (settled _ List.mem_cons_self).2 x bound
      | initialiser given => exact (settled _ List.mem_cons_self).1 x given
      | lower sized ranged => exact inner (bound_inside sized ranged x List.mem_cons_self)
      | upper sized ranged =>
          exact inner (bound_inside sized ranged x (List.mem_cons_of_mem _ List.mem_cons_self))

theorem wellFounded_next (symbols : WellFounded (Refers env p)) : WellFounded (Next env p) := by
  have settled (s : Symbol) :
      (∀ init, env.initialiser s = some init → Acc (Next env p) init) ∧
        ∀ argument, mapped? p s = some argument → Acc (Next env p) argument := by
    induction s using symbols.induction with
    | _ s ih =>
        constructor
        · intro init given
          exact acc_of_symbols _ init (Nat.le_refl _) fun x inside => ih x (.inl ⟨init, given, inside⟩)
        · intro argument bound
          exact acc_of_symbols _ argument (Nat.le_refl _) fun x inside =>
            ih x (.inr ⟨argument, bound, inside⟩)
  exact ⟨fun e => acc_of_symbols _ e (Nat.le_refl _) fun s _ => settled s⟩

/-- What the evaluator can evaluate next is one or two steps below. -/
theorem below_of_callees {e x : Expr} (listed : x ∈ callees env p e) :
    Relation.TransGen (Next env p) x e := by
  by_cases subscript : ∃ a i t, e = .binary .array a i t
  · obtain ⟨a, i, t, rfl⟩ := subscript
    have array : Next env p a (.binary .array a i t) := .sub List.mem_cons_self
    rcases List.mem_append.mp listed with listed | entry
    · rcases List.mem_cons.mp listed with rfl | bound
      · exact .single (.sub (List.mem_cons_of_mem _ List.mem_cons_self))
      · cases sized : a.type.getArraySize? with
        | none =>
            rw [sized] at bound
            cases bound
        | some size =>
            rw [sized, Option.bind_some] at bound
            cases ranged : size.getRange? with
            | none =>
                rw [ranged] at bound
                cases bound
            | some bounds =>
                rw [ranged] at bound
                rcases List.mem_cons.mp bound with rfl | bound
                · exact .tail (.single (.lower sized ranged)) array
                · rw [List.mem_singleton.mp bound]
                  exact .tail (.single (.upper sized ranged)) array
    · cases a with
      | identifier s t' =>
          cases given : env.initialiser s with
          | none => simp [given] at entry
          | some init =>
              have member : x ∈ init.subs := by simpa [given] using entry
              exact .tail (.tail (.single (.sub member)) (.initialiser given)) array
      | _ => cases entry
  by_cases symbol : ∃ s t, e = .identifier s t
  · obtain ⟨s, t, rfl⟩ := symbol
    rcases List.mem_append.mp listed with given | bound
    · exact .single (.initialiser (Option.mem_toList.mp given))
    · exact .single (.argument (Option.mem_toList.mp bound))
  have child : callees env p e = e.subs := by
    unfold callees
    split
    · exact absurd ⟨_, _, rfl⟩ symbol
    · exact absurd ⟨_, _, _, rfl⟩ subscript
    · rfl
  rw [child] at listed
  exact .single (.sub listed)

/-- Symbols that refer to each other in a well-founded way are declared before they are used. -/
theorem typeChecked_of_wellFounded (symbols : WellFounded (Refers env p)) {e : Expr}
    (typed : ∀ x, Meets env p x e → WellTyped x) : TypeChecked env p e := by
  induction e using (wellFounded_next symbols).transGen.induction with
  | _ e ih =>
      refine .node (typed e .refl) fun x listed => ?_
      have below := below_of_callees listed
      exact ih x below fun y met => typed y (met.trans below.to_reflTransGen)

end

/-! ## Enough stack -/

/-- `P depth stack` holds whenever both are large. -/
def Deeply (P : Nat → Nat → Prop) : Prop :=
  ∃ enough, ∀ depth ≥ enough, ∀ stack ≥ enough, P depth stack

namespace Deeply

variable {P Q : Nat → Nat → Prop}

theorem always (holds : ∀ depth stack, P depth stack) : Deeply P :=
  ⟨0, fun depth _ stack _ => holds depth stack⟩

theorem and (first : Deeply P) (second : Deeply Q) : Deeply fun depth stack => P depth stack ∧ Q depth stack := by
  obtain ⟨n, first⟩ := first
  obtain ⟨n', second⟩ := second
  exact ⟨max n n', fun depth deep stack large =>
    ⟨first depth (le_of_max_le_left deep) stack (le_of_max_le_left large),
      second depth (le_of_max_le_right deep) stack (le_of_max_le_right large)⟩⟩

/-- One more level of calls. -/
theorem succ (below : Deeply P) (step : ∀ depth stack, P depth stack → Q (depth + 1) stack) :
    Deeply Q := by
  obtain ⟨n, below⟩ := below
  refine ⟨n + 1, fun depth deep stack large => ?_⟩
  obtain ⟨depth, rfl⟩ : ∃ d, depth = d + 1 := ⟨depth - 1, by omega⟩
  exact step depth stack (below depth (by omega) stack (by omega))

theorem of_eventually {P : Nat → Prop} (holds : ∀ᶠ stack in atTop, P stack) :
    Deeply fun _ stack => P stack := by
  obtain ⟨n, holds⟩ := eventually_atTop.mp holds
  exact ⟨n, fun _ _ stack large => holds stack large⟩

theorem diagonal (holds : Deeply P) : ∀ᶠ n in atTop, P n n := by
  obtain ⟨n, holds⟩ := holds
  exact eventually_atTop.mpr ⟨n, fun m large => holds m large m large⟩

end Deeply

/-- The same symbols, and another native stack. -/
def Utap.Env.withStack (env : Env) (stack : Nat) : Env := { env with stack }

section

variable {env : Env} {p : Option Instance} {e : Expr} {size : Ty}

/-- The evaluator returns, whatever the rest of the program may use of the stack. -/
theorem eventually_evalAux_returns (checked : TypeChecked env p e) :
    ∀ᶠ depth in atTop, ∀ stack, Returns (evalAux (env.withStack stack) depth p e) := by
  induction checked with
  | @node e typed _ ih =>
      have all : ∀ᶠ depth in atTop, ∀ x ∈ callees env p e, ∀ stack,
          Returns (evalAux (env.withStack stack) depth p x) :=
        (eventually_all_finite (List.finite_toSet (callees env p e))).mpr ih
      exact eventually_succ (fun depth below stack =>
        @returns_of_callees (env.withStack stack) p e depth typed fun x listed => below x listed stack) all

theorem eventually_constant_returns (checked : TypeChecked env p e) :
    ∀ᶠ stack in atTop, Returns (evalIntegerConstant (env.withStack stack) p e) := by
  filter_upwards [eventually_evalAux_returns checked] with stack returns
  exact returns stack

/-- All expressions below are type-checked. -/
def CheckedBelow (env : Env) (p : Option Instance) (e : Expr) : Prop :=
  ∀ x, Meets env p x e → TypeChecked env p x

theorem CheckedBelow.next {x : Expr} (checked : CheckedBelow env p e) (next : Next env p x e) :
    CheckedBelow env p x := fun y met => checked y (met.tail next)

theorem eventually_bounds_return (checked : CheckedBelow env p e)
    (sized : e.type.getArraySize? = some size) :
    ∀ᶠ stack in atTop, Returns (computeRangeBounds (env.withStack stack) p size) := by
  cases ranged : size.getRange? with
  | none =>
      refine Eventually.of_forall fun stack => returns_bounds fun lower upper ranged' => ?_
      rw [ranged] at ranged'
      cases ranged'
  | some bounds =>
      obtain ⟨lower, upper⟩ := bounds
      filter_upwards [eventually_constant_returns (checked lower (.single (.lower sized ranged))),
        eventually_constant_returns (checked upper (.single (.upper sized ranged)))] with stack first second
      refine returns_bounds fun lower' upper' ranged' => ?_
      rw [ranged] at ranged'
      cases ranged'
      exact ⟨first, second⟩

/-! ## Decisions -/

theorem returns_assertThat (condition : Bool) (what : String) : Returns (assertThat condition what) :=
  Fails.branch (Fails.ret _) (Fails.raise Fault.noConfusion)

theorem returns_orAssert {α : Type} (what : String) (a : Option α) : Returns (orAssert what a) := by
  cases a with
  | none => exact Fails.raise Fault.noConfusion
  | some a => exact Fails.ret a

theorem returns_namedInitialiser (e : Expr) : Returns (namedInitialiser env e) := by
  unfold namedInitialiser
  split
  · split
    · exact Fails.raise Fault.noConfusion
    · split
      · exact returns_trErr _
      · exact Fails.ret _
  · exact Fails.ret _

theorem returns_equals {init : Expr}
    (bounds : ∀ list size, namedInitialiser env init = .ok list → list.type.getArraySize? = some size →
      Returns (computeRangeBounds env p size)) : Returns (areAllEqualsInList env p (some init)) := by
  refine Fails.bind (returns_assertThat _ _) fun _ => ?_
  refine Fails.following (returns_namedInitialiser init) fun list named => ?_
  refine Fails.following (returns_orAssert _ _) fun size sized => ?_
  refine Fails.bind (bounds list size named (orAssert_eq_ok.mp sized)) fun _ => ?_
  refine Fails.bind (returns_checkedInt _) fun _ => ?_
  exact Fails.branch (returns_trErr _) (Fails.bind (returns_orAssert _ _) fun _ => Fails.ret _)

theorem eventually_equals_return {init : Expr} (checked : CheckedBelow env p init) :
    ∀ᶠ stack in atTop, Returns (areAllEqualsInList (env.withStack stack) p (some init)) := by
  cases named : namedInitialiser env init with
  | error f =>
      refine Eventually.of_forall fun stack => returns_equals fun list size named' => ?_
      cases named.symm.trans named'
  | ok list =>
      have below : CheckedBelow env p list := by
        rcases namedInitialiser_eq_ok named with ⟨s, t, rfl, given⟩ | ⟨_, rfl⟩
        · exact checked.next (.initialiser given)
        · exact checked
      cases sized : list.type.getArraySize? with
      | none =>
          refine Eventually.of_forall fun stack => returns_equals fun list' size named' sized' => ?_
          cases named.symm.trans named'
          rw [sized] at sized'
          cases sized'
      | some size =>
          filter_upwards [eventually_bounds_return below sized] with stack returns
          refine returns_equals fun list' size' named' sized' => ?_
          cases named.symm.trans named'
          cases sized.symm.trans sized'
          exact returns

theorem returns_decision {a : Expr}
    (bounds : ∀ size, a.type.getArraySize? = some size → Returns (computeRangeBounds env p size))
    (equals : ∀ s init, a.getSymbol? = some s → env.initialiser s = some init →
      Returns (areAllEqualsInList env p (some init))) : Returns (isOneDimArrayVariable env p a) := by
  have type : Returns (isOneDimArrayType env p a.type) := by
    refine Fails.bind (returns_assertThat _ _) fun _ => ?_
    refine Fails.following (returns_orAssert _ _) fun size sized => ?_
    refine Fails.bind (bounds size (orAssert_eq_ok.mp sized)) fun _ => ?_
    exact Fails.bind (returns_orAssert _ _) fun _ => Fails.branch (Fails.ret _) (Fails.ret _)
  refine Fails.bind type fun ⟨minsz, maxsz, basetype⟩ => ?_
  cases basetype with
  | none => exact Fails.ret _
  | some basetype =>
    dsimp only
    split
    · exact Fails.raise Fault.noConfusion
    · rename_i s symbol
      split
      · exact Fails.ret _
      · rename_i var data
        refine Fails.bind ?_ fun _ => Fails.ret _
        cases expr : var.expr with
        | none => exact Fails.ret _
        | some init =>
            refine equals s init symbol ?_
            rw [Env.initialiser, data]
            exact expr

theorem eventually_decision_returns {a : Expr} (checked : CheckedBelow env p a) :
    ∀ᶠ stack in atTop, Returns (isOneDimArrayVariable (env.withStack stack) p a) := by
  have bounds : ∀ᶠ stack in atTop, ∀ size, a.type.getArraySize? = some size →
      Returns (computeRangeBounds (env.withStack stack) p size) := by
    cases sized : a.type.getArraySize? with
    | none => exact Eventually.of_forall fun stack size same => by cases same
    | some size =>
        filter_upwards [eventually_bounds_return checked sized] with stack returns size' same
        cases same
        exact returns
  have equals : ∀ᶠ stack in atTop, ∀ s init, a.getSymbol? = some s → env.initialiser s = some init →
      Returns (areAllEqualsInList (env.withStack stack) p (some init)) := by
    cases symbol : a.getSymbol? with
    | none => exact Eventually.of_forall fun stack s init same => by cases same
    | some s =>
        obtain ⟨t, met⟩ := @meets_symbol env p a s symbol
        cases given : env.initialiser s with
        | none =>
            refine Eventually.of_forall fun stack s' init same given' => ?_
            cases same
            rw [given] at given'
            cases given'
        | some init =>
            have below : CheckedBelow env p init := fun x inside =>
              checked x ((inside.tail (.initialiser given)).trans met)
            filter_upwards [eventually_equals_return below] with stack returns s' init' same given'
            cases same
            rw [given] at given'
            cases given'
            exact returns
  filter_upwards [bounds, equals] with stack bounds equals
  exact returns_decision bounds equals

/-! ## Printers -/

theorem returns_rejectExpression (e : Expr) (op : Option String) : Returns (rejectExpression e op) := by
  cases op <;> exact returns_trErr _

variable {ctx : ContextPrefix}

/-- Some depth of the stack is enough for a channel reference, by induction on the calls. -/
theorem deeply_event (ends : WellFounded (Next env p)) (checked : CheckedBelow env p e) :
    Deeply fun depth stack => Returns (translateEventAux (env.withStack stack) depth p e ctx) := by
  induction e using ends.induction with
  | _ e ih =>
      have below {x : Expr} (next : Next env p x e) :
          Deeply fun depth stack => Returns (translateEventAux (env.withStack stack) depth p x ctx) :=
        ih x next (checked.next next)
      have rejected (fails : ∀ depth stack,
          Returns (translateEventAux (env.withStack stack) (depth + 1) p e ctx)) :
          Deeply fun depth stack => Returns (translateEventAux (env.withStack stack) depth p e ctx) :=
        (Deeply.always (P := fun _ _ => True) fun _ _ => trivial).succ fun depth stack _ => fails depth stack
      cases e with
      | identifier s t =>
          cases bound : mapped? p s with
          | none =>
              refine rejected fun depth stack => ?_
              simp only [translateEventAux, bound]
              exact Fails.ret _
          | some argument =>
              refine (below (.argument bound)).succ fun depth stack returns => ?_
              simp only [translateEventAux, bound]
              exact returns
      | binary k a i t =>
          by_cases subscript : k = .array
          · subst subscript
            have array : Next env p a (.binary .array a i t) := .sub List.mem_cons_self
            have index : Next env p i (.binary .array a i t) :=
              .sub (List.mem_cons_of_mem _ List.mem_cons_self)
            have position := Deeply.of_eventually
              (eventually_constant_returns (checked i (.single index)))
            have bounds : Deeply fun _ stack => ∀ size, a.type.getArraySize? = some size →
                Returns (computeRangeBounds (env.withStack stack) p size) := by
              cases sized : a.type.getArraySize? with
              | none => exact Deeply.always fun _ _ size same => by cases same
              | some size =>
                  refine Deeply.of_eventually ?_
                  filter_upwards [eventually_bounds_return (checked.next array) sized]
                    with stack returns size' same
                  cases same
                  exact returns
            refine (((below array).and position).and bounds).succ fun depth stack all => ?_
            obtain ⟨⟨front, position⟩, bounds⟩ := all
            refine Fails.bind position fun _ => ?_
            refine Fails.following (returns_orAssert _ _) fun size sized => ?_
            refine Fails.bind (bounds size (orAssert_eq_ok.mp sized)) fun _ => ?_
            refine Fails.branch ?_ (returns_trErr _)
            exact Fails.bind front fun _ => Fails.bind position fun _ => Fails.ret _
          · refine rejected fun depth stack => ?_
            cases k <;> first | exact absurd rfl subscript | exact returns_trErr _
      | sync k channel =>
          exact (below (.sub List.mem_cons_self)).succ fun depth stack returns => returns
      | _ => exact rejected fun depth stack => returns_trErr _

/-- Some depth of the stack is enough for an expression, by induction on the calls. -/
theorem deeply_translation (ends : WellFounded (Next env p)) (checked : CheckedBelow env p e) :
    Deeply fun depth stack => Returns (translateAux (env.withStack stack) depth p e ctx) := by
  induction e using ends.induction with
  | _ e ih =>
      have below {x : Expr} (next : Next env p x e) :
          Deeply fun depth stack => Returns (translateAux (env.withStack stack) depth p x ctx) :=
        ih x next (checked.next next)
      have rejected (fails : ∀ depth stack,
          Returns (translateAux (env.withStack stack) (depth + 1) p e ctx)) :
          Deeply fun depth stack => Returns (translateAux (env.withStack stack) depth p e ctx) :=
        (Deeply.always (P := fun _ _ => True) fun _ _ => trivial).succ fun depth stack _ => fails depth stack
      cases e with
      | identifier s t =>
          cases bound : mapped? p s with
          | none =>
              refine rejected fun depth stack => ?_
              simp only [translateAux, bound]
              exact Fails.ret _
          | some argument =>
              refine (below (.argument bound)).succ fun depth stack returns => ?_
              simp only [translateAux, bound]
              exact returns
      | constant v t =>
          exact rejected fun depth stack => Fails.bind (returns_orAssert _ _) fun _ => Fails.ret _
      | unary k x t =>
          have operand := below (.sub (x := x) List.mem_cons_self)
          cases listed : unaryText k with
          | some front =>
              refine operand.succ fun depth stack returns => ?_
              rw [translateAux_unary listed]
              exact Fails.bind returns fun _ => Fails.ret _
          | none =>
              refine rejected fun depth stack => ?_
              rw [translateAux_unlistedUnary listed]
              exact returns_rejectExpression _ _
      | binary k l r t =>
          have first : Next env p l (.binary k l r t) := .sub List.mem_cons_self
          have second : Next env p r (.binary k l r t) :=
            .sub (List.mem_cons_of_mem _ List.mem_cons_self)
          have operands := (below first).and (below second)
          by_cases isArray : k = .array
          · subst isArray
            have decision := Deeply.of_eventually (eventually_decision_returns (checked.next first))
            have index := Deeply.of_eventually
              (eventually_constant_returns (checked r (.single second)))
            refine ((operands.and decision).and index).succ fun depth stack all => ?_
            obtain ⟨⟨⟨front, back⟩, decision⟩, index⟩ := all
            refine Fails.bind decision fun decided => ?_
            obtain ⟨answer, minsz, maxsz⟩ := decided
            cases answer with
            | true => exact Fails.bind front fun _ => Fails.bind back fun _ => Fails.ret _
            | false =>
                refine Fails.bind index fun _ => Fails.branch ?_ (returns_trErr _)
                exact Fails.bind front fun _ => Fails.ret _
          cases listed : operandsText k with
          | some frame =>
              refine operands.succ fun depth stack returns => ?_
              rw [translateAux_operands listed]
              exact Fails.bind returns.1 fun _ => Fails.bind returns.2 fun _ => Fails.ret _
          | none =>
              refine rejected fun depth stack => ?_
              rw [translateAux_unlisted listed isArray]
              exact returns_rejectExpression _ _
      | inlineIf c y n t =>
          have cond := below (.sub (x := c) List.mem_cons_self)
          have yes := below (.sub (x := y) (List.mem_cons_of_mem _ List.mem_cons_self))
          have no := below (.sub (x := n)
            (List.mem_cons_of_mem _ (List.mem_cons_of_mem _ List.mem_cons_self)))
          refine ((cond.and yes).and no).succ fun depth stack returns => ?_
          exact Fails.bind returns.1.1 fun _ => Fails.bind returns.1.2 fun _ =>
            Fails.bind returns.2 fun _ => Fails.ret _
      | nary k es t => exact rejected fun depth stack => returns_rejectExpression _ _
      | sync k channel =>
          exact (deeply_event ends checked).succ fun depth stack returns => returns

/-- With enough stack both printers return. -/
theorem eventually_printers_return (symbols : WellFounded (Refers env p))
    (typed : ∀ x, Meets env p x e → WellTyped x) : ∀ᶠ stack in atTop,
      Returns (translateExpression (env.withStack stack) p e ctx) ∧
        Returns (translateEventExpression (env.withStack stack) p e ctx) := by
  have checked : CheckedBelow env p e := fun x met =>
    typeChecked_of_wellFounded symbols fun y inside => typed y (inside.trans met)
  have ends := wellFounded_next symbols
  exact ((deeply_translation ends checked).and (deeply_event ends checked)).diagonal

end

end Utot
