import Utot.Library.Parting
import Utot.Parameters.Layouts

/-!
# Printing what has been substituted

The text that is printed with the mapping is the text printed without it, when
the arguments have been put in for the parameters, exactly if every subscript on
the way is resolved in the same way.
-/

namespace Utot

open Utap Uppaal Library

section

variable {env : Env} {σ : Bindings} {p : Option Instance} {depth : Nat} {e : Expr}
  {ctx : ContextPrefix} {text : String}

/-! ## Channel references -/

/-- The printer of channel references comes to `x` when it prints `e`. -/
inductive ChannelIn (p : Option Instance) (x : Expr) : Expr → Prop where
  | self : ChannelIn p x x
  | array {a i : Expr} {t : Ty} (inside : ChannelIn p x a) : ChannelIn p x (.binary .array a i t)
  | argument {s : Symbol} {t : Ty} {argument : Expr} (bound : mapped? p s = some argument)
      (inside : ChannelIn p x argument) : ChannelIn p x (.identifier s t)
  | sync {k : SyncKind} {channel : Expr} (inside : ChannelIn p x channel) : ChannelIn p x (.sync k channel)

/-- No index of a channel reference rests on a parameter in the initialiser of a variable. -/
def ClosedChannel (env : Env) (p : Option Instance) (e : Expr) : Prop :=
  ∀ a i t, ChannelIn p (.binary .array a i t) e → ¬ RestsOnParameter env p true i

theorem standsFor_of_event (printed : translateEventAux env depth p e ctx = .ok text) :
    ∃ r, StandsFor p e r := by
  induction depth generalizing e with
  | zero => cases printed
  | succ depth ih =>
      cases e with
      | identifier s t =>
          cases bound : mapped? p s with
          | none =>
              refine ⟨_, .here fun s' t' same => ?_⟩
              cases same
              exact bound
          | some argument =>
              simp only [translateEventAux, bound] at printed
              obtain ⟨r, later⟩ := ih printed
              exact ⟨r, .argument bound later⟩
      | _ => exact ⟨_, .here fun s t => Expr.noConfusion⟩

/-- The name of a channel that is printed with the mapping is printed without it, by
induction on the depth of the stack. -/
theorem translateEventAux_subst (solved : Solves σ p) (evaluable : Evaluable env p e)
    (fit : ArgumentsFit env p e) (closed : ClosedChannel env p e)
    (printed : translateEventAux env depth p e ctx = .ok text) :
    translateEventAux (env.subst σ) depth none (e.subst σ) ctx = .ok text := by
  induction depth generalizing e text with
  | zero => cases printed
  | succ depth ih =>
      have below {x : Expr} {text : String} (inside : PrintedIn env p x e)
          (printed : translateEventAux env depth p x ctx = .ok text)
          (further : ∀ y, ChannelIn p y x → ChannelIn p y e) :
          translateEventAux (env.subst σ) depth none (x.subst σ) ctx = .ok text :=
        ih (evaluable.within (meets_of_printedIn inside)) (fit.within inside)
          (fun a i t subscript => closed a i t (further _ subscript)) printed
      cases e with
      | identifier s t =>
          cases bound : mapped? p s with
          | none =>
              simp only [translateEventAux, bound] at printed
              rw [solved.kept bound]
              exact printed
          | some argument =>
              simp only [translateEventAux, bound] at printed
              rw [solved.bound bound]
              exact lifts_translateEventAux (Nat.le_succ depth) _ ctx text
                (below (.argument bound .self) printed fun _ => .argument bound)
      | binary k a i t =>
          by_cases subscript : k = .array
          · subst subscript
            obtain ⟨index, at', printed⟩ := Res.bind_eq_ok.mp printed
            obtain ⟨size, sized, printed⟩ := Res.bind_eq_ok.mp printed
            obtain ⟨⟨minsz, maxsz⟩, computed, printed⟩ := Res.bind_eq_ok.mp printed
            dsimp only at printed
            split at printed
            · rename_i inside
              obtain ⟨front, array, printed⟩ := Res.bind_eq_ok.mp printed
              obtain ⟨again, at'', printed⟩ := Res.bind_eq_ok.mp printed
              obtain ⟨r, stands⟩ := standsFor_of_event array
              have array' := below (.left .self) array fun _ => .array
              have index' := evalIntegerConstant_subst solved
                (evaluable.sub (List.mem_cons_of_mem _ List.mem_cons_self)) (closed a i t .self) at'
              have bounds := indexBounds_subst solved (evaluable.sub List.mem_cons_self)
                (fit.within (.left .self)) stands (Res.bind_eq_ok.mpr ⟨size, sized, computed⟩)
              obtain ⟨size', sized', computed'⟩ := Res.bind_eq_ok.mp bounds
              rw [at'] at at''
              cases at''
              cases printed
              change (evalIntegerConstant (env.subst σ) none (i.subst σ) >>= _) = _
              rw [index']
              change (orAssert _ (a.subst σ).type.getArraySize? >>= _) = _
              rw [sized']
              change (computeRangeBounds (env.subst σ) none size' >>= _) = _
              rw [computed']
              change (if minsz ≤ index ∧ index ≤ maxsz then _ else trErr _) = _
              rw [if_pos inside, array']
              rfl
            · cases printed
          · cases k <;> first | exact absurd rfl subscript | cases printed
      | sync k channel => exact below (.channel .self) printed fun _ => .sync
      | _ => cases printed

/-- A channel name that comes back after the substitution is the one that has been printed
before it, by induction on the depth of the stack. -/
theorem translateEventAux_subst_returned {depth' : Nat} {text' : String} (solved : Solves σ p)
    (evaluable : Evaluable env p e) (printed : translateEventAux env depth p e ctx = .ok text)
    (printed' : translateEventAux (env.subst σ) depth' none (e.subst σ) ctx = .ok text') :
    text' = text ∧ ClosedChannel env p e := by
  induction depth generalizing e text text' depth' with
  | zero => cases printed
  | succ depth ih =>
      obtain ⟨depth', rfl⟩ : ∃ d, depth' = d + 1 := by
        cases depth' with
        | zero => cases printed'
        | succ d => exact ⟨d, rfl⟩
      cases e with
      | identifier s t =>
          cases bound : mapped? p s with
          | none =>
              simp only [translateEventAux, bound] at printed
              rw [solved.kept bound] at printed'
              refine ⟨Except.ok.inj (printed'.symm.trans printed), fun a i t inside => ?_⟩
              cases inside with
              | argument again _ => cases bound.symm.trans again
          | some argument =>
              simp only [translateEventAux, bound] at printed
              rw [solved.bound bound] at printed'
              obtain ⟨same, closed⟩ := ih (evaluable.next (.argument bound)) printed printed'
              refine ⟨same, fun a i t inside => ?_⟩
              cases inside with
              | argument again inside =>
                  cases bound.symm.trans again
                  exact closed a i t inside
      | binary k a i t =>
          by_cases subscript : k = .array
          · subst subscript
            obtain ⟨index, at', printed⟩ := Res.bind_eq_ok.mp printed
            obtain ⟨_, _, printed⟩ := Res.bind_eq_ok.mp printed
            obtain ⟨⟨minsz, maxsz⟩, _, printed⟩ := Res.bind_eq_ok.mp printed
            obtain ⟨index', at'', printed'⟩ := Res.bind_eq_ok.mp printed'
            obtain ⟨_, _, printed'⟩ := Res.bind_eq_ok.mp printed'
            obtain ⟨⟨minsz', maxsz'⟩, _, printed'⟩ := Res.bind_eq_ok.mp printed'
            dsimp only at printed printed'
            split at printed
            · split at printed'
              · obtain ⟨front, array, printed⟩ := Res.bind_eq_ok.mp printed
                obtain ⟨again, second, printed⟩ := Res.bind_eq_ok.mp printed
                obtain ⟨front', array', printed'⟩ := Res.bind_eq_ok.mp printed'
                obtain ⟨again', second', printed'⟩ := Res.bind_eq_ok.mp printed'
                obtain ⟨rfl, closed⟩ := ih (evaluable.sub List.mem_cons_self) array array'
                obtain ⟨rfl, index⟩ := evalIntegerConstant_subst_returned solved
                  (evaluable.sub (List.mem_cons_of_mem _ List.mem_cons_self)) second second'
                refine ⟨Except.ok.inj (printed'.symm.trans printed), fun b j t inside => ?_⟩
                cases inside with
                | self => exact index
                | array inside => exact closed b j t inside
              · cases printed'
            · cases printed
          · cases k <;> first | exact absurd rfl subscript | cases printed
      | sync k channel =>
          obtain ⟨same, closed⟩ := ih (evaluable.sub List.mem_cons_self) printed printed'
          refine ⟨same, fun a i t inside => ?_⟩
          cases inside with
          | sync inside => exact closed a i t inside
      | _ => cases printed

/-! ## Expressions -/

/-- At `x` the printer does what it does after the substitution: the layout of a
subscripted array is kept, and no index that is folded rests on a parameter in the
initialiser of a variable. -/
def UnaffectedAt (env : Env) (σ : Bindings) (p : Option Instance) : Expr → Prop
  | .binary .array a i _ => KeepsLayout env σ p a ∧ (SplitAt env p a → ¬ RestsOnParameter env p true i)
  | .sync _ channel => ClosedChannel env p channel
  | _ => True

/-- The printer of expressions comes to `x` when it prints `e`. -/
inductive ExpressionIn (env : Env) (p : Option Instance) (x : Expr) : Expr → Prop where
  | self : ExpressionIn env p x x
  | unary {k : UnaryKind} {y : Expr} {t : Ty} (inside : ExpressionIn env p x y) :
      ExpressionIn env p x (.unary k y t)
  | left {k : BinaryKind} {l r : Expr} {t : Ty} (inside : ExpressionIn env p x l) :
      ExpressionIn env p x (.binary k l r t)
  | right {k : BinaryKind} {l r : Expr} {t : Ty} (other : k ≠ .array) (inside : ExpressionIn env p x r) :
      ExpressionIn env p x (.binary k l r t)
  | index {a i : Expr} {t : Ty} {min max : Int}
      (whole : isOneDimArrayVariable env p a = .ok (true, min, max)) (inside : ExpressionIn env p x i) :
      ExpressionIn env p x (.binary .array a i t)
  | cond {c y n : Expr} {t : Ty} (inside : ExpressionIn env p x c) : ExpressionIn env p x (.inlineIf c y n t)
  | yes {c y n : Expr} {t : Ty} (inside : ExpressionIn env p x y) : ExpressionIn env p x (.inlineIf c y n t)
  | no {c y n : Expr} {t : Ty} (inside : ExpressionIn env p x n) : ExpressionIn env p x (.inlineIf c y n t)
  | argument {s : Symbol} {t : Ty} {argument : Expr} (bound : mapped? p s = some argument)
      (inside : ExpressionIn env p x argument) : ExpressionIn env p x (.identifier s t)

/-- The text of `e` is unaffected by the substitution. -/
def Unaffected (env : Env) (σ : Bindings) (p : Option Instance) (e : Expr) : Prop :=
  ∀ x, ExpressionIn env p x e → UnaffectedAt env σ p x

theorem unaffectedAt_other {k : BinaryKind} {l r : Expr} {t : Ty} (other : k ≠ .array) :
    UnaffectedAt env σ p (.binary k l r t) := by
  cases k <;> trivial

theorem standsFor_of_translation (printed : translateAux env depth p e ctx = .ok text) :
    ∃ r, StandsFor p e r := by
  induction depth generalizing e with
  | zero => cases printed
  | succ depth ih =>
      cases e with
      | identifier s t =>
          cases bound : mapped? p s with
          | none =>
              refine ⟨_, .here fun s' t' same => ?_⟩
              cases same
              exact bound
          | some argument =>
              simp only [translateAux, bound] at printed
              obtain ⟨r, later⟩ := ih printed
              exact ⟨r, .argument bound later⟩
      | _ => exact ⟨_, .here fun s t => Expr.noConfusion⟩

/-- A subscript is printed without the mapping as with it. -/
theorem translateAux_subst_array {a i : Expr} {t : Ty} (solved : Solves σ p)
    (evaluable : Evaluable env p (.binary .array a i t)) (fit : ArgumentsFit env p (.binary .array a i t))
    (unaffected : Unaffected env σ p (.binary .array a i t))
    (below : ∀ {x : Expr} {text : String}, PrintedIn env p x (.binary .array a i t) →
      (∀ y, ExpressionIn env p y x → ExpressionIn env p y (.binary .array a i t)) →
        translateAux env depth p x ctx = .ok text →
          translateAux (env.subst σ) depth none (x.subst σ) ctx = .ok text)
    (printed : translateAux env (depth + 1) p (.binary .array a i t) ctx = .ok text) :
    translateAux (env.subst σ) (depth + 1) none ((Expr.binary .array a i t).subst σ) ctx = .ok text := by
  obtain ⟨kept, closed⟩ := unaffected _ .self
  obtain ⟨⟨answer, minsz, maxsz⟩, decided, printed⟩ := Res.bind_eq_ok.mp printed
  have decided' {text : String} (printed : translateAux env depth p a ctx = .ok text) :
      isOneDimArrayVariable (env.subst σ) none (a.subst σ) = .ok (answer, minsz, maxsz) := by
    obtain ⟨_, stands⟩ := standsFor_of_translation printed
    exact isOneDimArrayVariable_subst solved (evaluable.sub List.mem_cons_self) (fit.within (.left .self))
      stands kept decided
  change (isOneDimArrayVariable (env.subst σ) none (a.subst σ) >>= _) = _
  cases answer with
  | true =>
      obtain ⟨front, array, printed⟩ := Res.bind_eq_ok.mp printed
      obtain ⟨inner, index, printed⟩ := Res.bind_eq_ok.mp printed
      rw [decided' array]
      change (translateAux (env.subst σ) depth none (a.subst σ) ctx >>= _) = _
      rw [below (.left .self) (fun _ => .left) array]
      change (translateAux (env.subst σ) depth none (i.subst σ) ctx >>= _) = _
      rw [below (.index decided .self) (fun _ => .index decided) index]
      exact printed
  | false =>
      obtain ⟨index, at', printed⟩ := Res.bind_eq_ok.mp printed
      split at printed
      · rename_i inside
        obtain ⟨front, array, printed⟩ := Res.bind_eq_ok.mp printed
        have index' := evalIntegerConstant_subst solved
          (evaluable.sub (List.mem_cons_of_mem _ List.mem_cons_self)) (closed ⟨minsz, maxsz, decided⟩) at'
        rw [decided' array]
        change (evalIntegerConstant (env.subst σ) none (i.subst σ) >>= _) = _
        rw [index']
        change (if minsz ≤ index ∧ index ≤ maxsz then _ else trErr _) = _
        rw [if_pos inside, below (.left .self) (fun _ => .left) array]
        exact printed
      · cases printed

/-- The text that is printed with the mapping is printed without it, by induction on the
depth of the stack. -/
theorem translateAux_subst (solved : Solves σ p) (evaluable : Evaluable env p e)
    (fit : ArgumentsFit env p e) (unaffected : Unaffected env σ p e)
    (printed : translateAux env depth p e ctx = .ok text) :
    translateAux (env.subst σ) depth none (e.subst σ) ctx = .ok text := by
  induction depth generalizing e text with
  | zero => cases printed
  | succ depth ih =>
      have below {x : Expr} {text : String} (inside : PrintedIn env p x e)
          (further : ∀ y, ExpressionIn env p y x → ExpressionIn env p y e)
          (printed : translateAux env depth p x ctx = .ok text) :
          translateAux (env.subst σ) depth none (x.subst σ) ctx = .ok text :=
        ih (evaluable.within (meets_of_printedIn inside)) (fit.within inside)
          (fun y written => unaffected y (further y written)) printed
      cases e with
      | identifier s t =>
          cases bound : mapped? p s with
          | none =>
              simp only [translateAux, bound] at printed
              rw [solved.kept bound]
              exact printed
          | some argument =>
              simp only [translateAux, bound] at printed
              rw [solved.bound bound]
              exact lifts_translateAux (Nat.le_succ depth) _ ctx text
                (below (.argument bound .self) (fun _ => .argument bound) printed)
      | constant v t =>
          obtain ⟨value, read, printed⟩ := Res.bind_eq_ok.mp printed
          change (orAssert _ (Expr.constant v (t.subst σ)).getValue? >>= _) = _
          rw [getValue?_subst, orAssert_eq_ok.mp read]
          exact printed
      | unary k x t =>
          obtain ⟨front, inner, listed, operand, rfl⟩ := translateAux_unary_eq_ok printed
          rw [Expr.subst, translateAux_unary listed, below (.unary .self) (fun _ => .unary) operand]
          rfl
      | binary k l r t =>
          by_cases isArray : k = .array
          · subst isArray
            exact translateAux_subst_array solved evaluable fit unaffected below printed
          obtain ⟨front, middle, back, left, right, listed, printedLeft, printedRight, rfl⟩ :=
            translateAux_operands_eq_ok isArray printed
          rw [Expr.subst, translateAux_operands listed, below (.left .self) (fun _ => .left) printedLeft]
          change (translateAux (env.subst σ) depth none (r.subst σ) ctx >>= _) = _
          rw [below (.right isArray .self) (fun _ => .right isArray) printedRight]
          rfl
      | inlineIf c y n t =>
          obtain ⟨cond, first, printed⟩ := Res.bind_eq_ok.mp printed
          obtain ⟨yes, second, printed⟩ := Res.bind_eq_ok.mp printed
          obtain ⟨no, third, printed⟩ := Res.bind_eq_ok.mp printed
          change (translateAux (env.subst σ) depth none (c.subst σ) ctx >>= _) = _
          rw [below (.cond .self) (fun _ => .cond) first]
          change (translateAux (env.subst σ) depth none (y.subst σ) ctx >>= _) = _
          rw [below (.yes .self) (fun _ => .yes) second]
          change (translateAux (env.subst σ) depth none (n.subst σ) ctx >>= _) = _
          rw [below (.no .self) (fun _ => .no) third]
          exact printed
      | nary k es t => exact absurd printed rejectExpression_ne_ok
      | sync k channel =>
          refine translateEventAux_subst solved evaluable fit (fun a i t subscript => ?_) printed
          cases subscript with
          | sync inside => exact unaffected _ .self a i t inside

/-- Names of cells and elements of arrays part behind the name of the array. -/
theorem tells_bracket (P : Prop) (element cell : String) :
    Tells P ("[" ++ element) ("_" ++ cell) := by
  refine Tells.of_part ?_
  rw [String.toList_append, String.toList_append]
  exact part_of_heads (by decide)

/-- A subscript after the substitution tells that it has been resolved in the same way. -/
theorem translateAux_subst_array_tells {a i : Expr} {t : Ty} {depth' : Nat} {text' : String}
    (solved : Solves σ p) (evaluable : Evaluable env p (.binary .array a i t))
    (fit : ArgumentsFit env p (.binary .array a i t))
    (below : ∀ {x : Expr} {text text' : String}, PrintedIn env p x (.binary .array a i t) →
      translateAux env depth p x ctx = .ok text →
        translateAux (env.subst σ) depth' none (x.subst σ) ctx = .ok text' →
          Tells (Unaffected env σ p x) text text')
    (printed : translateAux env (depth + 1) p (.binary .array a i t) ctx = .ok text)
    (printed' : translateAux (env.subst σ) (depth' + 1) none ((Expr.binary .array a i t).subst σ) ctx =
      .ok text') : Tells (Unaffected env σ p (.binary .array a i t)) text text' := by
  have array := evaluable.sub (x := a) List.mem_cons_self
  obtain ⟨⟨answer, minsz, maxsz⟩, decided, printed⟩ := Res.bind_eq_ok.mp printed
  obtain ⟨⟨answer', minsz', maxsz'⟩, decided', printed'⟩ := Res.bind_eq_ok.mp printed'
  have kept (same : answer = answer') : KeepsLayout env σ p a := by
    subst same
    exact keepsLayout_of_decided solved array decided decided'
  cases answer with
  | true =>
      obtain ⟨left, printedLeft, printed⟩ := Res.bind_eq_ok.mp printed
      obtain ⟨right, printedRight, printed⟩ := Res.bind_eq_ok.mp printed
      cases printed
      cases answer' with
      | true =>
          obtain ⟨left', printedLeft', printed'⟩ := Res.bind_eq_ok.mp printed'
          obtain ⟨right', printedRight', printed'⟩ := Res.bind_eq_ok.mp printed'
          cases printed'
          have bounds : minsz' = minsz := by
            obtain ⟨r, stands⟩ := standsFor_of_translation printedLeft
            have before := indexBounds_subst solved array (fit.within (.left .self)) stands
              (isOneDimArrayVariable_eq_ok decided).2.1
            have after := (isOneDimArrayVariable_eq_ok decided').2.1
            exact congrArg Prod.fst (Except.ok.inj (after.symm.trans before))
          rw [bounds]
          have name := (below (.left .self) printedLeft printedLeft').behind "["
          have index := below (.index decided .self) printedRight printedRight'
          refine (((name.append index).behind _).behind _).imp fun both x inside => ?_
          cases inside with
          | self =>
              refine ⟨kept rfl, fun split => ?_⟩
              obtain ⟨_, _, split⟩ := split
              cases decided.symm.trans split
          | left inside => exact both.1 x inside
          | right other _ => exact absurd rfl other
          | index _ inside => exact both.2 x inside
      | false =>
          obtain ⟨index', _, printed'⟩ := Res.bind_eq_ok.mp printed'
          split at printed'
          · obtain ⟨left', printedLeft', printed'⟩ := Res.bind_eq_ok.mp printed'
            cases printed'
            simp only [String.append_assoc]
            exact ((below (.left .self) printedLeft printedLeft').append
              (tells_bracket False _ _)).imp fun both => both.2.elim
          · cases printed'
  | false =>
      obtain ⟨index, at', printed⟩ := Res.bind_eq_ok.mp printed
      split at printed
      · obtain ⟨left, printedLeft, printed⟩ := Res.bind_eq_ok.mp printed
        cases printed
        cases answer' with
        | true =>
            obtain ⟨left', printedLeft', printed'⟩ := Res.bind_eq_ok.mp printed'
            obtain ⟨right', printedRight', printed'⟩ := Res.bind_eq_ok.mp printed'
            cases printed'
            simp only [String.append_assoc]
            exact ((below (.left .self) printedLeft printedLeft').append
              (tells_bracket False _ _).symm).imp fun both => both.2.elim
        | false =>
            obtain ⟨index', at'', printed'⟩ := Res.bind_eq_ok.mp printed'
            split at printed'
            · obtain ⟨left', printedLeft', printed'⟩ := Res.bind_eq_ok.mp printed'
              cases printed'
              obtain ⟨rfl, closed⟩ := evalIntegerConstant_subst_returned solved
                (evaluable.sub (List.mem_cons_of_mem _ List.mem_cons_self)) at' at''
              have name := below (.left .self) printedLeft printedLeft'
              refine ((name.behind _).behind _).imp fun left x inside => ?_
              cases inside with
              | self => exact ⟨kept rfl, fun _ => closed⟩
              | left inside => exact left x inside
              | right other _ => exact absurd rfl other
              | index whole _ => cases decided.symm.trans whole
            · cases printed'
      · cases printed

/-- The text that comes back after the substitution tells that the printer is unaffected
by it, by induction on the depth of the stack. -/
theorem translateAux_subst_tells {depth' : Nat} {text' : String} (solved : Solves σ p)
    (evaluable : Evaluable env p e) (fit : ArgumentsFit env p e)
    (printed : translateAux env depth p e ctx = .ok text)
    (printed' : translateAux (env.subst σ) depth' none (e.subst σ) ctx = .ok text') :
    Tells (Unaffected env σ p e) text text' := by
  induction depth generalizing e text text' depth' with
  | zero => cases printed
  | succ depth ih =>
      obtain ⟨depth', rfl⟩ : ∃ d, depth' = d + 1 := by
        cases depth' with
        | zero => cases printed'
        | succ d => exact ⟨d, rfl⟩
      have below {x : Expr} {text text' : String} (inside : PrintedIn env p x e)
          (printed : translateAux env depth p x ctx = .ok text)
          (printed' : translateAux (env.subst σ) depth' none (x.subst σ) ctx = .ok text') :
          Tells (Unaffected env σ p x) text text' :=
        ih (evaluable.within (meets_of_printedIn inside)) (fit.within inside) printed printed'
      cases e with
      | identifier s t =>
          cases bound : mapped? p s with
          | none =>
              simp only [translateAux, bound] at printed
              rw [solved.kept bound] at printed'
              obtain rfl : text' = text := Except.ok.inj (printed'.symm.trans printed)
              refine Tells.refl _ fun x inside => ?_
              cases inside with
              | self => trivial
              | argument again _ => cases bound.symm.trans again
          | some argument =>
              simp only [translateAux, bound] at printed
              rw [solved.bound bound] at printed'
              have inner := ih (evaluable.next (.argument bound)) (fit.within (.argument bound .self))
                printed printed'
              refine inner.imp fun argument x inside => ?_
              cases inside with
              | self => trivial
              | argument again inside =>
                  cases bound.symm.trans again
                  exact argument x inside
      | constant v t =>
          obtain ⟨value, read, printed⟩ := Res.bind_eq_ok.mp printed
          obtain ⟨value', read', printed'⟩ := Res.bind_eq_ok.mp printed'
          have same := (getValue?_subst (σ := σ) v t).trans (orAssert_eq_ok.mp read)
          cases same.symm.trans (orAssert_eq_ok.mp read')
          obtain rfl : text' = text := Except.ok.inj (printed'.symm.trans printed)
          refine Tells.refl _ fun x inside => ?_
          cases inside with
          | self => trivial
      | unary k x t =>
          obtain ⟨front, inner, listed, operand, rfl⟩ := translateAux_unary_eq_ok printed
          obtain ⟨front', inner', listed', operand', rfl⟩ := translateAux_unary_eq_ok printed'
          cases listed.symm.trans listed'
          refine (((below (.unary .self) operand operand').before front).behind ")").imp fun operand x inside => ?_
          cases inside with
          | self => trivial
          | unary inside => exact operand x inside
      | binary k l r t =>
          by_cases isArray : k = .array
          · subst isArray
            exact translateAux_subst_array_tells solved evaluable fit below printed printed'
          obtain ⟨front, middle, back, left, right, listed, printedLeft, printedRight, rfl⟩ :=
            translateAux_operands_eq_ok isArray printed
          obtain ⟨front', middle', back', left', right', listed', printedLeft', printedRight', rfl⟩ :=
            translateAux_operands_eq_ok isArray printed'
          cases listed.symm.trans listed'
          have first := ((below (.left .self) printedLeft printedLeft').before front).behind middle
          have second := below (.right isArray .self) printedRight printedRight'
          refine ((first.append second).behind back).imp fun both x inside => ?_
          cases inside with
          | self => exact unaffectedAt_other isArray
          | left inside => exact both.1 x inside
          | right _ inside => exact both.2 x inside
          | index => exact absurd rfl isArray
      | inlineIf c y n t =>
          obtain ⟨cond, printedCond, printed⟩ := Res.bind_eq_ok.mp printed
          obtain ⟨yes, printedYes, printed⟩ := Res.bind_eq_ok.mp printed
          obtain ⟨no, printedNo, printed⟩ := Res.bind_eq_ok.mp printed
          obtain ⟨cond', printedCond', printed'⟩ := Res.bind_eq_ok.mp printed'
          obtain ⟨yes', printedYes', printed'⟩ := Res.bind_eq_ok.mp printed'
          obtain ⟨no', printedNo', printed'⟩ := Res.bind_eq_ok.mp printed'
          cases printed
          cases printed'
          have first := ((below (.cond .self) printedCond printedCond').before "(if ").behind " then "
          have second := (first.append (below (.yes .self) printedYes printedYes')).behind " else "
          have third := (second.append (below (.no .self) printedNo printedNo')).behind ")"
          refine third.imp fun all x inside => ?_
          cases inside with
          | self => trivial
          | cond inside => exact all.1.1 x inside
          | yes inside => exact all.1.2 x inside
          | no inside => exact all.2 x inside
      | nary k es t => exact absurd printed rejectExpression_ne_ok
      | sync k channel =>
          obtain ⟨rfl, closed⟩ := translateEventAux_subst_returned solved evaluable printed printed'
          refine Tells.refl _ fun x inside => ?_
          cases inside with
          | self => exact fun a i t inside => closed a i t (.sync inside)

/-- The substitution leaves the text as it is exactly if the printer is unaffected. -/
theorem translateExpression_subst_iff (solved : Solves σ p) (evaluable : Evaluable env p e)
    (fit : ArgumentsFit env p e) (printed : translateExpression env p e ctx = .ok text) :
    translateExpression (env.subst σ) none (e.subst σ) ctx = .ok text ↔ Unaffected env σ p e := by
  constructor
  · intro printed'
    exact (translateAux_subst_tells solved evaluable fit printed printed').same rfl
  · intro unaffected
    exact translateAux_subst solved evaluable fit unaffected printed

/-- The name of a channel comes back exactly if its indices rest on no parameter. -/
theorem translateEventExpression_subst_iff (solved : Solves σ p) (evaluable : Evaluable env p e)
    (fit : ArgumentsFit env p e) (printed : translateEventExpression env p e ctx = .ok text) :
    translateEventExpression (env.subst σ) none (e.subst σ) ctx = .ok text ↔ ClosedChannel env p e := by
  constructor
  · intro printed'
    exact (translateEventAux_subst_returned solved evaluable printed printed').2
  · intro closed
    exact translateEventAux_subst solved evaluable fit closed printed

end

end Utot
