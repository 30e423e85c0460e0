import Utot.Parameters.Termination
import Utot.Run.Promises

/-!
# What is not printed is rejected

What a call of `translate_expression` calls itself on, and the steps on the way that
end in an assertion or in undefined behaviour.  Where none of them is reached, every
expression that is not printed raises a translation error.
-/

namespace Utot

open Utap Library

/-! ## Decisions -/

/-- What stops the decision at a subscript, given the expressions that stop the evaluator:
what is subscripted is no array, the bounds of its index or the comparison of the entries
of its root stop, or it has no root. -/
inductive DecisionStops (env : Env) (p : Option Instance) (faulty : Expr → Prop) (a : Expr) : Prop where
  | notArray (other : a.type.isArray = false)
  | noSize (array : a.type.isArray = true) (missing : a.type.getArraySize? = none)
  | bounds {size : Ty} (sized : a.type.getArraySize? = some size) (stops : BoundsStop env p faulty size)
  | noSymbol (looks : looksOneDim a.type = true) (rootless : a.getSymbol? = none)
  | initialiser {s : Symbol} {e : Expr} (looks : looksOneDim a.type = true) (symbol : a.getSymbol? = some s)
      (given : env.initialiser s = some e) (stops : InitialiserStops env p faulty e)

theorem first_of_isArray : ∀ {t : Ty}, t.isArray = true → ∃ sub, (stripRefsAndLabels t).first? = some sub
  | .prim _, array => by cases array
  | .pre _ _, _ => ⟨_, rfl⟩
  | .ref t, array => first_of_isArray (t := t) array
  | .label _ t, array => first_of_isArray (t := t) array
  | .range _ _ _, _ => ⟨_, rfl⟩
  | .array _ _, _ => ⟨_, rfl⟩
  | .record _ _, array => by cases array

section

variable {env : Env} {p : Option Instance} {a e x : Expr}

theorem decisionStops_of_stops (stops : Stops (isOneDimArrayVariable env p a)) :
    DecisionStops env p (Halts env p) a := by
  cases array : a.type.isArray with
  | false => exact .notArray array
  | true =>
      obtain ⟨sub, first⟩ := first_of_isArray array
      rcases stops_bind.mp stops with stops | ⟨⟨minsz, maxsz, basetype⟩, type, stops⟩
      · unfold isOneDimArrayType at stops
        rw [array, first] at stops
        change Stops (orAssert _ a.type.getArraySize? >>= _) at stops
        rcases stops_bind.mp stops with stops | ⟨size, sized, stops⟩
        · exact .noSize array (stops_orAssert.mp stops)
        rcases stops_bind.mp stops with stops | ⟨bounds, _, stops⟩
        · exact .bounds (orAssert_eq_ok.mp sized) (stops_computeRangeBounds.mp stops)
        · change Stops (if sub.isArray = true then _ else _) at stops
          split at stops
          · exact absurd stops (not_stops_ok _)
          · exact absurd stops (not_stops_ok _)
      · obtain ⟨_, _, looks⟩ := isOneDimArrayType_eq_ok type
        cases basetype with
        | none => exact absurd stops (not_stops_ok _)
        | some basetype =>
            cases symbol : a.getSymbol? with
            | none => exact .noSymbol looks.symm symbol
            | some s =>
                dsimp only at stops
                rw [symbol] at stops
                dsimp only at stops
                cases data : env.getData s with
                | none =>
                    rw [data] at stops
                    exact absurd stops (not_stops_ok _)
                | some var =>
                    rw [data] at stops
                    rcases stops_bind.mp stops with stops | ⟨_, _, stops⟩
                    · obtain ⟨init, given, stops⟩ := stops_areAllEqualsInList.mp stops
                      refine .initialiser looks.symm symbol ?_ stops
                      rw [Env.initialiser, data]
                      exact given
                    · exact absurd stops (not_stops_ok _)

theorem DecisionStops.mono {F G : Expr → Prop}
    (bounds : ∀ size, a.type.getArraySize? = some size → WithinBounds F G size)
    (entries : ∀ s init list size, a.getSymbol? = some s → env.initialiser s = some init →
      namedInitialiser env init = .ok list → list.type.getArraySize? = some size → WithinBounds F G size)
    (stops : DecisionStops env p F a) : DecisionStops env p G a := by
  cases stops with
  | notArray other => exact .notArray other
  | noSize array missing => exact .noSize array missing
  | bounds sized stops => exact .bounds sized (stops.mono (bounds _ sized))
  | noSymbol looks rootless => exact .noSymbol looks rootless
  | initialiser looks symbol given stops =>
      exact .initialiser looks symbol given
        (stops.mono fun list size named sized => entries _ _ list size symbol given named sized)

end

/-! ## Calls of the printer -/

section

variable (env : Env) (p : Option Instance)

/-- `translate_expression` calls itself on `x` for `e`. -/
inductive Visits : Expr → Expr → Prop where
  | operand {k : UnaryKind} {x : Expr} {t : Ty} {front : String} (listed : unaryText k = some front) :
      Visits (.unary k x t) x
  | left {k : BinaryKind} {l r : Expr} {t : Ty} {frame : String × String × String}
      (listed : operandsText k = some frame) : Visits (.binary k l r t) l
  | right {k : BinaryKind} {l r : Expr} {t : Ty} {frame : String × String × String}
      (listed : operandsText k = some frame) : Visits (.binary k l r t) r
  | array {a i : Expr} {t : Ty} : Visits (.binary .array a i t) a
  | index {a i : Expr} {t : Ty} {min max : Int} (whole : isOneDimArrayVariable env p a = .ok (true, min, max)) :
      Visits (.binary .array a i t) i
  | cond {c y n : Expr} {t : Ty} : Visits (.inlineIf c y n t) c
  | yes {c y n : Expr} {t : Ty} : Visits (.inlineIf c y n t) y
  | no {c y n : Expr} {t : Ty} : Visits (.inlineIf c y n t) n
  | argument {s : Symbol} {t : Ty} {argument : Expr} (bound : mapped? p s = some argument) :
      Visits (.identifier s t) argument

/-- A visited expression that can end in an assertion or in undefined behaviour: a literal
that is no integer, a subscript whose decision stops or whose constant index is faulty.
Synchronisations, which are parts of no other expression, are among them. -/
inductive Unsettled : Expr → Prop where
  | literal {v : Int} {t : Ty} (other : t.isIntegral = false) : Unsettled (.constant v t)
  | decision {a i : Expr} {t : Ty} (stops : DecisionStops env p (Faulty env p) a) :
      Unsettled (.binary .array a i t)
  | index {a i : Expr} {t : Ty} {min max : Int}
      (split : isOneDimArrayVariable env p a = .ok (false, min, max)) (faulty : Faulty env p i) :
      Unsettled (.binary .array a i t)
  | channel {kind : SyncKind} {x : Expr} : Unsettled (.sync kind x)

/-- Nothing unsettled is visited, and the type checker has accepted everything below. -/
structure Settled (e : Expr) : Prop where
  checked : CheckedBelow env p e
  settled : ∀ x, Relation.ReflTransGen (Visits env p) e x → ¬ Unsettled env p x

end

section

variable {env : Env} {p : Option Instance} {a e x : Expr} {ctx : ContextPrefix} {depth : Nat}

theorem next_of_visits (visits : Visits env p e x) : Next env p x e := by
  cases visits with
  | operand => exact .sub List.mem_cons_self
  | left => exact .sub List.mem_cons_self
  | right => exact .sub (List.mem_cons_of_mem _ List.mem_cons_self)
  | array => exact .sub List.mem_cons_self
  | index => exact .sub (List.mem_cons_of_mem _ List.mem_cons_self)
  | cond => exact .sub List.mem_cons_self
  | yes => exact .sub (List.mem_cons_of_mem _ List.mem_cons_self)
  | no => exact .sub (List.mem_cons_of_mem _ (List.mem_cons_of_mem _ List.mem_cons_self))
  | argument bound => exact .argument bound

theorem Settled.visit (settled : Settled env p e) (visits : Visits env p e x) : Settled env p x where
  checked := settled.checked.next (next_of_visits visits)
  settled y reached := settled.settled y (.head visits reached)

theorem faulty_of_halts (checked : TypeChecked env p x) (halts : Halts env p x) : Faulty env p x := by
  obtain ⟨f, failed, aborts⟩ := halts
  exact faulty_of_evalAux checked failed aborts

/-- The bounds of an array below are faulty where they stop. -/
theorem withinBounds_of_checked {size : Ty} (checked : CheckedBelow env p e)
    (sized : e.type.getArraySize? = some size) : WithinBounds (Halts env p) (Faulty env p) size :=
  fun _ _ ranged => ⟨faulty_of_halts (checked _ (.single (.lower sized ranged))),
    faulty_of_halts (checked _ (.single (.upper sized ranged)))⟩

theorem CheckedBelow.named {init list : Expr} (checked : CheckedBelow env p init)
    (named : namedInitialiser env init = .ok list) : CheckedBelow env p list := by
  rcases namedInitialiser_eq_ok named with ⟨s, t, rfl, given⟩ | ⟨_, rfl⟩
  · exact checked.next (.initialiser given)
  · exact checked

theorem CheckedBelow.node (checked : TypeChecked env p e)
    (below : ∀ x, Next env p x e → CheckedBelow env p x) : CheckedBelow env p e := by
  intro x met
  rcases Relation.ReflTransGen.cases_tail met with rfl | ⟨y, inside, next⟩
  · exact checked
  · exact below y next x inside

theorem checkedBelow_constant {v : Int} (fits : IsInt v) :
    CheckedBelow env p (.constant v (.prim .int)) := by
  refine .node (.node ⟨fits, fun _ => rfl⟩ fun x listed => absurd listed List.not_mem_nil) fun x next => ?_
  cases next with
  | sub child => cases child
  | lower sized => cases sized
  | upper sized => cases sized

theorem decision_settled (checked : CheckedBelow env p a)
    (settled : ¬ DecisionStops env p (Faulty env p) a) : ¬ Stops (isOneDimArrayVariable env p a) := by
  intro stops
  refine settled ((decisionStops_of_stops stops).mono ?_ ?_)
  · exact fun size sized => withinBounds_of_checked checked sized
  · intro s init list size symbol given named sized
    obtain ⟨t, met⟩ := @meets_symbol env p a s symbol
    have below : CheckedBelow env p init := fun x inside =>
      checked x ((inside.tail (.initialiser given)).trans met)
    exact withinBounds_of_checked (below.named named) sized

theorem not_stops_rejectExpression (e : Expr) (op : Option String) :
    ¬ Stops (rejectExpression e op) := by
  cases op <;> exact not_stops_trErr _

/-- No assertion fails in a settled expression, and nothing undefined is done, by induction on
the depth of the calls. -/
theorem not_stops_translateAux (settled : Settled env p e) : ¬ Stops (translateAux env depth p e ctx) := by
  induction depth generalizing e with
  | zero =>
      rintro ⟨f, failed, aborts⟩
      cases failed
      exact aborts
  | succ depth ih =>
      have visit {x : Expr} (visits : Visits env p e x) : ¬ Stops (translateAux env depth p x ctx) :=
        ih (settled.visit visits)
      intro stops
      cases e with
      | identifier s t =>
          cases bound : mapped? p s with
          | none =>
              simp only [translateAux, bound] at stops
              exact not_stops_ok _ stops
          | some argument =>
              simp only [translateAux, bound] at stops
              exact visit (.argument bound) stops
      | constant v t =>
          rcases stops_bind.mp stops with stops | ⟨_, _, stops⟩
          · have other : t.isIntegral = false := by
              by_contra integral
              have read : (Expr.constant v t).getValue? = some _ := if_pos (by simpa using integral)
              rw [read] at stops
              exact not_stops_ok _ stops
            exact settled.settled _ .refl (.literal other)
          · exact not_stops_ok _ stops
      | unary k x t =>
          cases listed : unaryText k with
          | some front =>
              rw [translateAux_unary listed] at stops
              rcases stops_bind.mp stops with stops | ⟨_, _, stops⟩
              · exact visit (.operand listed) stops
              · exact not_stops_ok _ stops
          | none =>
              rw [translateAux_unlistedUnary listed] at stops
              exact not_stops_rejectExpression _ _ stops
      | binary k l r t =>
          by_cases isArray : k = .array
          · subst isArray
            have decision : ¬ Stops (isOneDimArrayVariable env p l) :=
              decision_settled (settled.visit .array).checked
                fun stops => settled.settled _ .refl (.decision stops)
            rcases stops_bind.mp stops with stops | ⟨⟨answer, minsz, maxsz⟩, decided, stops⟩
            · exact decision stops
            cases answer with
            | true =>
                rcases stops_bind.mp stops with stops | ⟨_, _, stops⟩
                · exact visit .array stops
                rcases stops_bind.mp stops with stops | ⟨_, _, stops⟩
                · exact visit (.index decided) stops
                · exact not_stops_ok _ stops
            | false =>
                rcases stops_bind.mp stops with stops | ⟨index, _, stops⟩
                · have index : Next env p r (.binary .array l r t) :=
                    .sub (List.mem_cons_of_mem _ List.mem_cons_self)
                  have faulty := faulty_of_halts (settled.checked r (.single index)) stops
                  exact settled.settled _ .refl (.index decided faulty)
                split at stops
                · rcases stops_bind.mp stops with stops | ⟨_, _, stops⟩
                  · exact visit .array stops
                  · exact not_stops_ok _ stops
                · exact not_stops_trErr _ stops
          cases listed : operandsText k with
          | some frame =>
              rw [translateAux_operands listed] at stops
              rcases stops_bind.mp stops with stops | ⟨_, _, stops⟩
              · exact visit (.left listed) stops
              rcases stops_bind.mp stops with stops | ⟨_, _, stops⟩
              · exact visit (.right listed) stops
              · exact not_stops_ok _ stops
          | none =>
              rw [translateAux_unlisted listed isArray] at stops
              exact not_stops_rejectExpression _ _ stops
      | inlineIf c y n t =>
          rcases stops_bind.mp stops with stops | ⟨_, _, stops⟩
          · exact visit .cond stops
          rcases stops_bind.mp stops with stops | ⟨_, _, stops⟩
          · exact visit .yes stops
          rcases stops_bind.mp stops with stops | ⟨_, _, stops⟩
          · exact visit .no stops
          · exact not_stops_ok _ stops
      | nary k es t => exact not_stops_rejectExpression _ _ stops
      | sync k channel => exact settled.settled _ .refl .channel

/-- What is not printed raises a translation error, or exhausts the native stack. -/
theorem rejected_of_settled (settled : Settled env p e) {fault : Fault}
    (failed : translateExpression env p e ctx = .error fault) :
    (∃ cls args, fault = .thrown cls args) ∨ fault = .stackOverflow := by
  cases fault with
  | thrown cls args => exact .inl ⟨cls, args, rfl⟩
  | stackOverflow => exact .inr rfl
  | assertion what => exact absurd ⟨_, failed, trivial⟩ (not_stops_translateAux settled)
  | undefined what => exact absurd ⟨_, failed, trivial⟩ (not_stops_translateAux settled)

end

end Utot
