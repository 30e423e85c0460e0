import Utot.Library.Exec

/-!
# What a program does to its state at most

A preorder on states that relates the first state of every run to its last one,
whether the run returns or throws.  Such a frame is closed under composition, so
it is read off the text of a program.
-/

namespace Utot.Library

variable {ε σ α β : Type}

/-- A reflexive and transitive relation on states. -/
structure Frame (σ : Type) where
  rel : σ → σ → Prop
  refl : ∀ s, rel s s
  trans : ∀ {a b c}, rel a b → rel b c → rel a c

/-- The frame that looks at a part of the state. -/
def Frame.onPart {τ : Type} (part : σ → τ) (R : Frame τ) : Frame σ where
  rel s s' := R.rel (part s) (part s')
  refl s := R.refl (part s)
  trans first second := R.trans first second

/-- Every run stays within the frame. -/
def Keeps (R : Frame σ) (m : Prog ε σ α) : Prop := ∀ s, R.rel s (exec m s).2

namespace Keeps

variable {R : Frame σ} {m : Prog ε σ α}

theorem ret (a : α) : Keeps R (pure a : Prog ε σ α) := R.refl

theorem raise (e : ε) : Keeps R (throw e : Prog ε σ α) := R.refl

theorem lift (r : Except ε α) : Keeps R (fromExcept r : Prog ε σ α) := R.refl

theorem update {f : σ → σ} (within : ∀ s, R.rel s (f s)) :
    Keeps R (modify f : Prog ε σ PUnit) := within

theorem read : Keeps R (get : Prog ε σ σ) := R.refl

theorem bind {f : α → Prog ε σ β} (first : Keeps R m) (next : ∀ a, Keeps R (f a)) :
    Keeps R (m >>= f) := by
  intro s
  have start := first s
  rw [exec_bind]
  rcases outcome : exec m s with ⟨_ | a, s'⟩
  · rwa [outcome] at start
  · rw [outcome] at start
    exact R.trans start (next a s')

/-- A computation without state, and what follows when it returns. -/
theorem liftBind {r : Except ε α} {f : α → Prog ε σ β} (next : ∀ a, r = .ok a → Keeps R (f a)) :
    Keeps R (fromExcept r >>= f) := by
  cases r with
  | error e => exact R.refl
  | ok a => exact next a rfl

/-- What follows may use that the first part has returned. -/
theorem bindReturned {f : α → Prog ε σ β} (first : Keeps R m)
    (next : ∀ a s s', exec m s = (.ok a, s') → Keeps R (f a)) : Keeps R (m >>= f) := by
  intro s
  have start := first s
  rw [exec_bind]
  rcases outcome : exec m s with ⟨_ | a, s'⟩
  · rwa [outcome] at start
  · rw [outcome] at start
    exact R.trans start (next a s s' outcome s')

theorem branch {c : Prop} [Decidable c] {n : Prog ε σ α} (yes : Keeps R m) (no : Keeps R n) :
    Keeps R (if c then m else n) := by
  split
  · exact yes
  · exact no

theorem forM {as : List α} {f : α → Prog ε σ PUnit} (round : ∀ a ∈ as, Keeps R (f a)) :
    Keeps R (as.forM f) := by
  induction as with
  | nil => exact ret _
  | cons a as ih =>
      change Keeps R (f a >>= fun _ => as.forM f)
      exact bind (round a List.mem_cons_self)
        fun _ => ih fun b inside => round b (List.mem_cons_of_mem _ inside)

theorem foldlM {as : List α} {f : β → α → Prog ε σ β} (round : ∀ a ∈ as, ∀ b, Keeps R (f b a))
    (b : β) : Keeps R (as.foldlM f b) := by
  induction as generalizing b with
  | nil => exact ret b
  | cons a as ih =>
      rw [List.foldlM_cons]
      exact bind (round a List.mem_cons_self b)
        fun b' => ih (fun c inside => round c (List.mem_cons_of_mem _ inside)) b'

theorem weaken {R' : Frame σ} (keeps : Keeps R m) (wider : ∀ s s', R.rel s s' → R'.rel s s') :
    Keeps R' m := fun s => wider _ _ (keeps s)

/-- A property that the frame cannot break is kept. -/
theorem spec {I : σ → Prop} (keeps : Keeps R m) (stable : ∀ s s', R.rel s s' → I s → I s') :
    Spec I m (fun _ => I) I := by
  intro s pre
  have within := keeps s
  rcases outcome : exec m s with ⟨_ | a, s'⟩
  · rw [outcome] at within
    exact stable s s' within pre
  · rw [outcome] at within
    exact stable s s' within pre

end Keeps

/-- A property that the frame cannot break may be added to a specification. -/
theorem Spec.framed {R : Frame σ} {m : Prog ε σ α} {P C E : σ → Prop} {Q : α → σ → Prop}
    (spec : Spec P m Q E) (keeps : Keeps R m) (stable : ∀ s s', R.rel s s' → C s → C s') :
    Spec (fun s => P s ∧ C s) m (fun a s => Q a s ∧ C s) E := by
  intro s pre
  have post := spec s pre.1
  have within := keeps s
  rcases outcome : exec m s with ⟨_ | a, s'⟩
  · rw [outcome] at post
    exact post
  · rw [outcome] at post within
    exact ⟨post, stable s s' within pre.2⟩

/-- What each round of a loop achieves holds in the end, if the other rounds
cannot break it. -/
theorem Spec.forM_each {R : Frame σ} {as : List α} {f : α → Prog ε σ PUnit} {I E : σ → Prop}
    {C : α → σ → Prop} (round : ∀ a ∈ as, Spec I (f a) (fun _ s => I s ∧ C a s) E)
    (keeps : ∀ a ∈ as, Keeps R (f a))
    (stable : ∀ a ∈ as, ∀ s s', R.rel s s' → C a s → C a s') :
    Spec I (as.forM f) (fun _ s => I s ∧ ∀ a ∈ as, C a s) E := by
  refine (Spec.forM (I := fun visited s => I s ∧ ∀ a ∈ visited, C a s)
    fun visited a rest split => ?_).weaken (fun s pre => ⟨pre, by simp⟩) (fun _ _ post => post)
    fun _ failed => failed
  have member : a ∈ as := by
    rw [split]
    simp
  have before : ∀ b ∈ visited, b ∈ as := fun b earlier => by
    rw [split]
    simp [earlier]
  refine ((round a member).framed (keeps a member)
    (C := fun s => ∀ b ∈ visited, C b s) ?_).weaken (fun _ pre => pre) ?_ fun _ failed => failed
  · intro s s' within done b earlier
    exact stable b (before b earlier) s s' within (done b earlier)
  · rintro _ s ⟨⟨kept, now⟩, done⟩
    refine ⟨kept, fun b inside => ?_⟩
    rcases List.mem_append.mp inside with earlier | last
    · exact done b earlier
    · rw [List.mem_singleton.mp last]
      exact now

end Utot.Library
