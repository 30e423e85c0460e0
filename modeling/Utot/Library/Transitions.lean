import Mathlib.Data.List.Forall2

/-!
# Transition systems

Systems with labelled steps, what holds in all their runs, and simulations that
match labels by a relation.
-/

namespace Utot.Library

variable {S T L M : Type}

/-- The states a system starts in, and its steps. -/
structure System (S L : Type) where
  start : S → Prop
  step : S → L → S → Prop

namespace System

variable {A : System S L}

/-- Steps one after the other. -/
inductive Run (A : System S L) : S → List L → S → Prop where
  | nil {s : S} : Run A s [] s
  | cons {s s' s'' : S} {l : L} {ls : List L} (first : A.step s l s') (later : Run A s' ls s'') :
      Run A s (l :: ls) s''

/-- A run from the start leads to the state. -/
def Reachable (A : System S L) (s : S) : Prop := ∃ s₀ ls, A.start s₀ ∧ A.Run s₀ ls s

/-- No step of the kind is possible. -/
def Refuses (A : System S L) (kind : L → Prop) (s : S) : Prop := ∀ l s', kind l → ¬ A.step s l s'

/-- Nothing is done, neither now nor after waiting. -/
structure Deadlocked (A : System S L) (waits acts : L → Prop) (s : S) : Prop where
  now : A.Refuses acts s
  later : ∀ l s', waits l → A.step s l s' → A.Refuses acts s'

theorem Run.keeps {P : S → Prop} (steps : ∀ s l s', P s → A.step s l s' → P s') {s s' : S}
    {ls : List L} (run : A.Run s ls s') (holds : P s) : P s' := by
  induction run with
  | nil => exact holds
  | cons first _ ih => exact ih (steps _ _ _ holds first)

/-- What the start satisfies and every step keeps holds in every reachable state. -/
theorem Reachable.invariant {P : S → Prop} (starts : ∀ s, A.start s → P s)
    (steps : ∀ s l s', P s → A.step s l s' → P s') {s : S} (reached : A.Reachable s) : P s := by
  obtain ⟨s₀, ls, start, run⟩ := reached
  exact run.keeps steps (starts s₀ start)

theorem Reachable.start {s : S} (start : A.start s) : A.Reachable s := ⟨s, [], start, .nil⟩

end System

/-! ## Simulations -/

section

variable {A : System S L} {B : System T M} {R : S → T → Prop} {labels : L → M → Prop}

/-- Every step of the first system is answered by one of the second. -/
structure Simulates (A : System S L) (B : System T M) (R : S → T → Prop) (labels : L → M → Prop) :
    Prop where
  start : ∀ s, A.start s → ∃ t, B.start t ∧ R s t
  step : ∀ s t l s', R s t → A.step s l s' → ∃ m t', labels l m ∧ B.step t m t' ∧ R s' t'

/-- A run is answered step by step. -/
theorem Simulates.run (simulates : Simulates A B R labels) {s s' : S} {t : T} {ls : List L}
    (related : R s t) (run : A.Run s ls s') :
    ∃ ms t', List.Forall₂ labels ls ms ∧ B.Run t ms t' ∧ R s' t' := by
  induction run generalizing t with
  | nil => exact ⟨[], t, .nil, .nil, related⟩
  | cons first _ ih =>
      obtain ⟨m, t₁, label, step, related⟩ := simulates.step _ _ _ _ related first
      obtain ⟨ms, t', later, run, related⟩ := ih related
      exact ⟨m :: ms, t', .cons label later, .cons step run, related⟩

theorem Simulates.reachable (simulates : Simulates A B R labels) {s : S} (reached : A.Reachable s) :
    ∃ t, B.Reachable t ∧ R s t := by
  obtain ⟨s₀, ls, start, run⟩ := reached
  obtain ⟨t₀, start', related⟩ := simulates.start s₀ start
  obtain ⟨ms, t, _, run', related⟩ := simulates.run related run
  exact ⟨t, ⟨t₀, ms, start', run'⟩, related⟩

/-- What holds in all states the answers reach holds in all states that are answered. -/
theorem Simulates.always (simulates : Simulates A B R labels) {P : S → Prop} {Q : T → Prop}
    (agree : ∀ s t, R s t → Q t → P s) (always : ∀ t, B.Reachable t → Q t) {s : S}
    (reached : A.Reachable s) : P s := by
  obtain ⟨t, reached', related⟩ := simulates.reachable reached
  exact agree s t related (always t reached')

/-- Each of two systems answers the steps of the other. -/
structure Bisimulates (A : System S L) (B : System T M) (R : S → T → Prop) (labels : L → M → Prop) :
    Prop where
  forward : Simulates A B R labels
  backward : Simulates B A (fun t s => R s t) fun m l => labels l m

theorem Bisimulates.reachable_iff (both : Bisimulates A B R labels) {P : S → Prop} {Q : T → Prop}
    (agree : ∀ s t, R s t → (P s ↔ Q t)) :
    (∃ s, A.Reachable s ∧ P s) ↔ ∃ t, B.Reachable t ∧ Q t := by
  constructor
  · rintro ⟨s, reached, holds⟩
    obtain ⟨t, reached', related⟩ := both.forward.reachable reached
    exact ⟨t, reached', (agree s t related).mp holds⟩
  · rintro ⟨t, reached, holds⟩
    obtain ⟨s, reached', related⟩ := both.backward.reachable reached
    exact ⟨s, reached', (agree s t related).mpr holds⟩

/-- What holds in all reachable states of one system holds in those of the other. -/
theorem Bisimulates.always_iff (both : Bisimulates A B R labels) {P : S → Prop} {Q : T → Prop}
    (agree : ∀ s t, R s t → (P s ↔ Q t)) :
    (∀ s, A.Reachable s → P s) ↔ ∀ t, B.Reachable t → Q t :=
  ⟨fun always _ reached => both.backward.always (fun t s related => (agree s t related).mp) always reached,
    fun always _ reached => both.forward.always (fun s t related => (agree s t related).mpr) always reached⟩

variable {waits acts : L → Prop} {waits' acts' : M → Prop}

theorem Simulates.refuses (simulates : Simulates A B R labels) (same : ∀ l m, labels l m → acts l → acts' m)
    {s : S} {t : T} (related : R s t) (refuses : B.Refuses acts' t) : A.Refuses acts s := by
  intro l s' act step
  obtain ⟨m, t', label, step', _⟩ := simulates.step s t l s' related step
  exact refuses m t' (same l m label act) step'

/-- A state is deadlocked if the state that answers it is. -/
theorem Bisimulates.deadlocked (both : Bisimulates A B R labels)
    (waiting : ∀ l m, labels l m → (waits l ↔ waits' m)) (acting : ∀ l m, labels l m → (acts l ↔ acts' m))
    {s : S} {t : T} (related : R s t) (deadlocked : B.Deadlocked waits' acts' t) : A.Deadlocked waits acts s := by
  have forth : ∀ l m, labels l m → acts l → acts' m := fun l m label => (acting l m label).mp
  refine ⟨both.forward.refuses forth related deadlocked.now, ?_⟩
  intro l s' wait step
  obtain ⟨m, t', label, step', related'⟩ := both.forward.step s t l s' related step
  exact both.forward.refuses forth related'
    (deadlocked.later m t' ((waiting l m label).mp wait) step')

theorem Bisimulates.flip (both : Bisimulates A B R labels) :
    Bisimulates B A (fun t s => R s t) fun m l => labels l m :=
  ⟨both.backward, both.forward⟩

theorem Bisimulates.deadlocked_iff (both : Bisimulates A B R labels)
    (waiting : ∀ l m, labels l m → (waits l ↔ waits' m)) (acting : ∀ l m, labels l m → (acts l ↔ acts' m))
    {s : S} {t : T} (related : R s t) : A.Deadlocked waits acts s ↔ B.Deadlocked waits' acts' t := by
  constructor
  · exact both.flip.deadlocked (fun m l label => (waiting l m label).symm)
      (fun m l label => (acting l m label).symm) related
  · exact both.deadlocked waiting acting related

end

end Utot.Library
