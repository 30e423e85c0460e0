import Mathlib.Logic.Basic

/-!
# Running programs with state and exceptions

A program of `ExceptT ε (StateM σ)` keeps its state when it throws, as a C++
function that has already written to a stream does.  `exec` runs it; `Spec` is
its partial correctness with one condition for normal and one for exceptional
termination.
-/

namespace Utot.Library

variable {ε σ α β : Type}

/-- Programs over a state `σ` that may throw an `ε`. -/
abbrev Prog (ε σ α : Type) : Type := ExceptT ε (StateM σ) α

/-- The outcome and the final state of a program. -/
def exec (m : Prog ε σ α) (s : σ) : Except ε α × σ := m.run.run s

/-- A computation without state. -/
def fromExcept (r : Except ε α) : Prog ε σ α := ExceptT.mk (pure r)

@[simp] theorem exec_pure (a : α) (s : σ) : exec (pure a : Prog ε σ α) s = (.ok a, s) := rfl

@[simp] theorem exec_throw (e : ε) (s : σ) :
    exec (throw e : Prog ε σ α) s = (.error e, s) := rfl

@[simp] theorem exec_fromExcept (r : Except ε α) (s : σ) :
    exec (fromExcept r : Prog ε σ α) s = (r, s) := rfl

@[simp] theorem exec_modify (f : σ → σ) (s : σ) :
    exec (modify f : Prog ε σ Unit) s = (.ok (), f s) := rfl

@[simp] theorem exec_get (s : σ) : exec (get : Prog ε σ σ) s = (.ok s, s) := rfl

theorem exec_bind (m : Prog ε σ α) (f : α → Prog ε σ β) (s : σ) :
    exec (m >>= f) s =
      match exec m s with
      | (.ok a, s') => exec (f a) s'
      | (.error e, s') => (.error e, s') := by
  change (ExceptT.bindCont f (exec m s).1 (exec m s).2 : Except ε β × σ) = _
  rcases exec m s with ⟨_ | _, _⟩ <;> rfl

theorem exec_bind_ok {m : Prog ε σ α} {f : α → Prog ε σ β} {s s' : σ} {a : α}
    (first : exec m s = (.ok a, s')) : exec (m >>= f) s = exec (f a) s' := by
  rw [exec_bind, first]

theorem exec_bind_error {m : Prog ε σ α} {f : α → Prog ε σ β} {s s' : σ} {e : ε}
    (first : exec m s = (.error e, s')) : exec (m >>= f) s = (.error e, s') := by
  rw [exec_bind, first]

/-- What follows a part that throws is not run. -/
theorem throws_bind {m : Prog ε σ α} {f : α → Prog ε σ β} {s : σ} {e : ε}
    (first : (exec m s).1 = .error e) : (exec (m >>= f) s).1 = .error e := by
  rw [exec_bind]
  rcases outcome : exec m s with ⟨_ | a, s'⟩
  · rw [outcome] at first
    cases first
    rfl
  · rw [outcome] at first
    cases first

/-- A computation without state in front of a run that returned. -/
theorem exec_liftBind_ok {r : Except ε α} {f : α → Prog ε σ β} {s s' : σ} {b : β}
    (run : exec (fromExcept r >>= f) s = (.ok b, s')) : ∃ a, r = .ok a ∧ exec (f a) s = (.ok b, s') := by
  cases r with
  | error e => cases run
  | ok a => exact ⟨a, rfl, run⟩

/-- A block with a local object: the destructor runs when the block is left, be it by
an error that unwinds the stack. -/
def leaving (unwinds : ε → Bool) (destructor : Except ε Unit) (block : Prog ε σ α) : Prog ε σ α := do
  let result ← tryCatch block fun e =>
    if unwinds e then fromExcept destructor >>= fun _ => throw e else throw e
  fromExcept destructor
  pure result

theorem exec_tryCatch (m : Prog ε σ α) (handler : ε → Prog ε σ α) (s : σ) :
    exec (tryCatch m handler) s =
      match exec m s with
      | (.ok a, s') => (.ok a, s')
      | (.error e, s') => exec (handler e) s' := by
  change ((match (exec m s).1 with
    | .ok a => pure (.ok a)
    | .error e => handler e) : StateM σ (Except ε α)) (exec m s).2 = _
  rcases exec m s with ⟨_ | _, _⟩ <;> rfl

theorem exec_tryCatch_ok {m : Prog ε σ α} {handler : ε → Prog ε σ α} {s s' : σ} {a : α}
    (run : exec m s = (.ok a, s')) : exec (tryCatch m handler) s = (.ok a, s') := by
  rw [exec_tryCatch, run]

theorem exec_tryCatch_error {m : Prog ε σ α} {handler : ε → Prog ε σ α} {s s' : σ} {e : ε}
    (run : exec m s = (.error e, s')) : exec (tryCatch m handler) s = exec (handler e) s' := by
  rw [exec_tryCatch, run]

section

variable {unwinds : ε → Bool} {destructor : Except ε Unit} {block : Prog ε σ α} {s s' : σ}

theorem exec_leaving_ok {a : α} (run : exec block s = (.ok a, s')) :
    exec (leaving unwinds destructor block) s = (destructor.map fun _ => a, s') := by
  unfold leaving
  rw [exec_bind_ok (exec_tryCatch_ok run)]
  cases destructor <;> rfl

/-- An error of the destructor takes the place of the one that unwinds the stack. -/
theorem exec_leaving_error {e : ε} (run : exec block s = (.error e, s')) :
    exec (leaving unwinds destructor block) s =
      (if unwinds e then destructor >>= fun _ => .error e else .error e, s') := by
  unfold leaving
  rw [exec_bind, exec_tryCatch_error run]
  by_cases unwound : unwinds e = true
  · rw [if_pos unwound, if_pos unwound]
    cases destructor <;> rfl
  · rw [if_neg unwound, if_neg unwound]
    rfl

theorem leaving_fails {e : ε} (run : exec block s = (.error e, s')) :
    ∃ e', exec (leaving unwinds destructor block) s = (.error e', s') ∧
      (e' = e ∨ destructor = .error e') := by
  rw [exec_leaving_error run]
  cases unwinds e with
  | false => exact ⟨e, rfl, .inl rfl⟩
  | true =>
      cases destructor with
      | error e' => exact ⟨e', rfl, .inr rfl⟩
      | ok _ => exact ⟨e, rfl, .inl rfl⟩

/-- A destructor without effect. -/
theorem exec_leaving (harmless : destructor = .ok ()) :
    exec (leaving unwinds destructor block) s = exec block s := by
  rcases run : exec block s with ⟨e | a, s'⟩
  · rw [exec_leaving_error run, harmless]
    cases unwinds e <;> rfl
  · rw [exec_leaving_ok run, harmless]
    rfl

end

@[simp] theorem exec_forM_nil (f : α → Prog ε σ PUnit) (s : σ) :
    exec (([] : List α).forM f) s = (.ok (), s) := rfl

theorem exec_forM_cons (a : α) (as : List α) (f : α → Prog ε σ PUnit) (s : σ) :
    exec ((a :: as).forM f) s =
      match exec (f a) s with
      | (.ok _, s') => exec (as.forM f) s'
      | (.error e, s') => (.error e, s') := by
  change exec (f a >>= fun _ => as.forM f) s = _
  rw [exec_bind]
  rcases exec (f a) s with ⟨_ | _, _⟩ <;> rfl

/-- The states between the rounds of a loop. -/
inductive Rounds (step : σ → α → σ → Prop) : σ → List α → σ → Prop where
  | nil {s : σ} : Rounds step s [] s
  | cons {a : α} {as : List α} {s s' s'' : σ} (first : step s a s') (later : Rounds step s' as s'') :
      Rounds step s (a :: as) s''

theorem Rounds.append {step : σ → α → σ → Prop} {as bs : List α} {s s' s'' : σ}
    (first : Rounds step s as s') (second : Rounds step s' bs s'') : Rounds step s (as ++ bs) s'' := by
  induction first with
  | nil => exact second
  | cons round _ ih => exact .cons round (ih second)

/-- The rounds of an inner loop in each round of an outer one. -/
theorem Rounds.flatMap {step : σ → β → σ → Prop} {g : α → List β} {as : List α} {s s' : σ}
    (rounds : Rounds (fun s a s' => Rounds step s (g a) s') s as s') :
    Rounds step s (as.flatMap g) s' := by
  induction rounds with
  | nil => exact .nil
  | cons round _ ih =>
      rw [List.flatMap_cons]
      exact round.append ih

theorem Rounds.imp {step : σ → α → σ → Prop} {step' : σ → α → σ → Prop} {as : List α} {s s' : σ}
    (rounds : Rounds step s as s') (wider : ∀ a ∈ as, ∀ s s', step s a s' → step' s a s') :
    Rounds step' s as s' := by
  induction rounds with
  | nil => exact .nil
  | cons round _ ih =>
      exact .cons (wider _ List.mem_cons_self _ _ round)
        (ih fun a inside => wider a (List.mem_cons_of_mem _ inside))

theorem Rounds.map {γ : Type} {step : σ → β → σ → Prop} {g : γ → β} {as : List γ} {s s' : σ}
    (rounds : Rounds (fun s a s' => step s (g a) s') s as s') : Rounds step s (as.map g) s' := by
  induction rounds with
  | nil => exact .nil
  | cons round _ ih => exact .cons round ih

/-- A loop that returned has done its rounds one after the other. -/
theorem rounds_of_forM {as : List α} {f : α → Prog ε σ PUnit} {s s' : σ}
    (run : exec (as.forM f) s = (.ok (), s')) :
    Rounds (fun s a s' => exec (f a) s = (.ok (), s')) s as s' := by
  induction as generalizing s with
  | nil =>
      cases run
      exact .nil
  | cons a as ih =>
      rw [exec_forM_cons] at run
      rcases outcome : exec (f a) s with ⟨_ | _, middle⟩
      · rw [outcome] at run
        cases run
      · rw [outcome] at run
        exact .cons outcome (ih run)

/-- A loop that carries a value no round looks at but for a property of it. -/
theorem foldlM_discard {γ : Type} {as : List α} {f : β → α → Prog ε σ β} {g : α → Prog ε σ PUnit}
    {next : β → α → β} {I : β → Prop}
    (round : ∀ b a, I b → f b a = g a >>= fun _ => pure (next b a))
    (kept : ∀ b a, I b → I (next b a)) (k : Prog ε σ γ) {b : β} (start : I b) :
    (as.foldlM f b >>= fun _ => k) = as.forM g >>= fun _ => k := by
  induction as generalizing b with
  | nil => rfl
  | cons a as ih =>
      change _ = (g a >>= fun _ => as.forM g) >>= fun _ => k
      rw [List.foldlM_cons, round b a start]
      simp only [bind_assoc, pure_bind]
      rw [ih (kept b a start)]

/-! ## Partial correctness -/

/-- From a state with `P` the program ends in `Q` when it returns and in `E`
when it throws. -/
def Spec (P : σ → Prop) (m : Prog ε σ α) (Q : α → σ → Prop) (E : σ → Prop) : Prop :=
  ∀ s, P s →
    match exec m s with
    | (.ok a, s') => Q a s'
    | (.error _, s') => E s'

namespace Spec

variable {P A : σ → Prop} {Q Q' : α → σ → Prop} {R : β → σ → Prop} {E : σ → Prop}

theorem ret (a : α) (holds : ∀ s, P s → Q a s) : Spec P (pure a : Prog ε σ α) Q E :=
  fun s pre => holds s pre

theorem lift {r : Except ε α} (holds : ∀ s, P s → ∀ a, r = .ok a → Q a s)
    (fails : ∀ s, P s → ∀ e, r = .error e → E s) : Spec P (fromExcept r : Prog ε σ α) Q E := by
  intro s pre
  cases outcome : r with
  | error e => simpa [outcome] using fails s pre e outcome
  | ok a => simpa [outcome] using holds s pre a outcome

theorem update {f : σ → σ} {Q : PUnit → σ → Prop} (holds : ∀ s, P s → Q () (f s)) :
    Spec P (modify f : Prog ε σ PUnit) Q E :=
  fun s pre => holds s pre

theorem bind {m : Prog ε σ α} {f : α → Prog ε σ β} (first : Spec P m Q E)
    (next : ∀ a, Spec (Q a) (f a) R E) : Spec P (m >>= f) R E := by
  intro s pre
  have middle := first s pre
  rw [exec_bind]
  rcases outcome : exec m s with ⟨_ | a, s'⟩
  · simpa [outcome] using middle
  · rw [outcome] at middle
    exact next a s' middle

theorem weaken {m : Prog ε σ α} {F : σ → Prop} (spec : Spec P m Q E) (pre : ∀ s, A s → P s)
    (post : ∀ a s, Q a s → Q' a s) (fails : ∀ s, E s → F s) : Spec A m Q' F := by
  intro s given
  have holds := spec s (pre s given)
  rcases outcome : exec m s with ⟨_ | a, s'⟩
  · rw [outcome] at holds
    exact fails s' holds
  · rw [outcome] at holds
    exact post a s' holds

/-- A part of the precondition that is not about the state. -/
theorem assume {c : Prop} {m : Prog ε σ α} (spec : c → Spec P m Q E) :
    Spec (fun s => c ∧ P s) m Q E :=
  fun s pre => spec pre.1 s pre.2

theorem anyOf {ι : Type} {P : ι → σ → Prop} {m : Prog ε σ α} (spec : ∀ i, Spec (P i) m Q E) :
    Spec (fun s => ∃ i, P i s) m Q E :=
  fun s ⟨i, pre⟩ => spec i s pre

/-- A computation without state, and what follows when it returns. -/
theorem liftBind {r : Except ε α} {f : α → Prog ε σ β}
    (next : ∀ a, r = .ok a → Spec P (f a) R E) (fails : ∀ s, P s → E s) :
    Spec P (fromExcept r >>= f) R E :=
  Spec.bind (Q := fun a s => r = .ok a ∧ P s)
    (Spec.lift (fun _ pre _ same => ⟨same, pre⟩) fun s pre _ _ => fails s pre)
    fun a => Spec.assume (next a)

/-- A program that reads the state first. -/
theorem read {f : σ → Prog ε σ β} (next : ∀ r, P r → Spec (fun s => s = r) (f r) R E) :
    Spec P (get >>= f) R E := by
  intro s pre
  rw [exec_bind, exec_get]
  exact next s pre s rfl

/-- A fold whose invariant speaks of the elements already visited. -/
theorem foldlM {as : List α} {f : β → α → Prog ε σ β} {I : List α → β → σ → Prop}
    (round : ∀ visited a rest b, as = visited ++ a :: rest →
      Spec (I visited b) (f b a) (I (visited ++ [a])) E) (b : β) :
    Spec (I [] b) (as.foldlM f b) (I as) E := by
  suffices after : ∀ visited rest b, as = visited ++ rest →
      Spec (I visited b) (rest.foldlM f b) (I as) E from after [] as b rfl
  intro visited rest
  induction rest generalizing visited with
  | nil =>
      intro b split
      rw [List.append_nil] at split
      subst split
      exact Spec.ret b fun _ pre => pre
  | cons a rest ih =>
      intro b split
      rw [List.foldlM_cons]
      refine Spec.bind (round visited a rest b split) fun b' => ih (visited ++ [a]) b' ?_
      rw [split, List.append_assoc, List.singleton_append]

/-- A loop whose invariant speaks of the elements already visited. -/
theorem forM {l : List α} {f : α → Prog ε σ PUnit} {I : List α → σ → Prop}
    (round : ∀ visited a rest, l = visited ++ a :: rest →
      Spec (I visited) (f a) (fun _ => I (visited ++ [a])) E) :
    Spec (I []) (l.forM f) (fun _ => I l) E := by
  suffices after : ∀ visited rest, l = visited ++ rest →
      Spec (I visited) (rest.forM f) (fun _ => I l) E from after [] l rfl
  intro visited rest
  induction rest generalizing visited with
  | nil =>
      intro split
      rw [List.append_nil] at split
      subst split
      exact Spec.ret _ fun _ pre => pre
  | cons a rest ih =>
      intro split
      change Spec _ (f a >>= fun _ => rest.forM f) _ E
      refine Spec.bind (round visited a rest split) fun _ => ih (visited ++ [a]) ?_
      rw [split, List.append_assoc, List.singleton_append]

/-- A loop keeps what each of its rounds keeps. -/
theorem loop {as : List α} {f : α → Prog ε σ PUnit}
    (round : ∀ a ∈ as, Spec P (f a) (fun _ => P) E) : Spec P (as.forM f) (fun _ => P) E :=
  Spec.forM fun visited a rest split => round a (by rw [split]; simp)

/-- What a run that returned satisfies. -/
theorem returned {m : Prog ε σ α} (spec : Spec P m Q E) {s s' : σ} {a : α} (pre : P s)
    (run : exec m s = (.ok a, s')) : Q a s' := by
  have holds := spec s pre
  rw [run] at holds
  exact holds

/-- A program that cannot throw returns. -/
theorem returns {m : Prog ε σ α} (spec : Spec P m Q fun _ => False) {s : σ} (pre : P s) :
    ∃ a s', exec m s = (.ok a, s') ∧ Q a s' := by
  have holds := spec s pre
  rcases outcome : exec m s with ⟨_ | a, s'⟩
  · rw [outcome] at holds
    exact holds.elim
  · rw [outcome] at holds
    exact ⟨a, s', rfl, holds⟩

end Spec

end Utot.Library
