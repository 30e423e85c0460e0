import Utot.Library.Components
import Utot.Network.Channels
import Utot.Network.Vectors
import Utot.Sync.Binary
import Utot.Sync.Broadcast

/-!
# Joint moves on both sides

The vectors of the output let the same instances move together as the channels
of the model: an emitter and a receiver, or an emitter and all instances that
can receive, provided no reception is lost on the way.
-/

namespace Utot

open Utap Uppaal Library Tchecker

/-! ## What the tables know -/

/-- No cell has one instance that emits it, receives it too, and has others that receive it. -/
def NoSoleEmitter {V : Type} (A : Arithmetic V) (env : Env) (tas : TimedAutomataSystem) : Prop :=
  ∀ c o, (∀ o', Offers A env tas o' (.emit c) ↔ o' = o) → Offers A env tas o (.receive c) →
    ∀ o', Offers A env tas o' (.receive c) → o' = o

/-- The tables and the vectors belong to the channels of the model. -/
structure Tabled {V : Type} (A : Arithmetic V) (env : Env) (tas : TimedAutomataSystem)
    (events : GlobalEvents) (vectors : List SyncVector) : Prop where
  vectors : ∀ v, v ∈ vectors ↔ ∃ s, v ∈ labelVectors events s
  emitted : ∀ process s, process ∈ events.emitters.procs s ↔
    ∃ o c, Names env tas o process ∧ Named env tas c s ∧ Offers A env tas o (.emit c)
  received : ∀ process s, process ∈ events.receivers.procs s ↔
    ∃ o c, Names env tas o process ∧ Named env tas c s ∧ Offers A env tas o (.receive c)
  modes : ∀ o c s, Named env tas c s → Offers A env tas o (.emit c) ∨ Offers A env tas o (.receive c) →
    (s ∈ events.brodcasts ↔ declaredBroadcast (env.getType c.symbol) = true)

/-- Who is ready on both sides. -/
structure ReadyAlike {V : Type} (A : Arithmetic V) (env : Env) (tas : TimedAutomataSystem)
    (ready : Owner → Signal → Prop) (ready' : String → String → Prop) : Prop where
  forth : ∀ o signal, ready o signal → ∃ process event, Names env tas o process ∧
    SameEvent env tas signal event ∧ ready' process event
  back : ∀ process event, ready' process event → ∃ o signal, Names env tas o process ∧
    SameEvent env tas signal event ∧ ready o signal
  offers : ∀ o signal, ready o signal → Offers A env tas o signal

section

variable {V : Type} {A : Arithmetic V} {env : Env} {tas : TimedAutomataSystem} {events : GlobalEvents}
  {vectors : List SyncVector} {ready : Owner → Signal → Prop} {ready' : String → String → Prop}
  {order : Schedule} {o o' : Owner} {c : Cell} {process process' s : String}

theorem emit_of_sameEvent {signal : Signal} (same : SameEvent env tas signal (emitEvent s)) :
    ∃ c, signal = .emit c ∧ Named env tas c s := by
  generalize event : emitEvent s = written at same
  cases same with
  | internal => exact absurd event.symm (tauEvent_ne_append (by decide))
  | emit named =>
      rw [← emitEvent_inj.mp event] at named
      exact ⟨_, rfl, named⟩
  | receive => exact absurd event (emitEvent_ne_recvEvent _ _)

theorem receive_of_sameEvent {signal : Signal} (same : SameEvent env tas signal (recvEvent s)) :
    ∃ c, signal = .receive c ∧ Named env tas c s := by
  generalize event : recvEvent s = written at same
  cases same with
  | internal => exact absurd event.symm (tauEvent_ne_append (by decide))
  | emit => exact absurd event.symm (emitEvent_ne_recvEvent _ _)
  | receive named =>
      rw [← recvEvent_inj.mp event] at named
      exact ⟨_, rfl, named⟩

theorem not_sameEvent_nosync {signal : Signal} : ¬ SameEvent env tas signal noSyncEvent := by
  intro same
  generalize event : noSyncEvent = written at same
  cases same with
  | internal => exact absurd event (by decide)
  | emit => exact emitEvent_ne_noSync _ event.symm
  | receive => exact recvEvent_ne_noSync _ event.symm

variable (tractable : Tractable A env tas)

include tractable

theorem same_cell (named : Named env tas c s) {c' : Cell} (named' : Named env tas c' s) : c = c' :=
  tractable.apart.cell_eq tractable.scopes.toDistinctSymbols named named'

theorem same_owner (named : Names env tas o process) (named' : Names env tas o' process) : o = o' :=
  owner_unique tractable.scopes.toDistinctSymbols tractable.apart named named'

theorem same_name (named : Names env tas o process) (named' : Names env tas o process') : process = process' :=
  names_unique tractable.scopes.toDistinctSymbols named named'

/-- No instance has the name of the process that never moves. -/
theorem ne_stuck (named : Names env tas o process) : process ≠ stuckProcess := by
  obtain ⟨p, lives, rfl⟩ := named
  intro same
  exact tractable.reserved p lives.listed (process_stuck lives.count same).1

variable (tabled : Tabled A env tas events vectors)

include tabled

theorem emitter_iff (named : Names env tas o process) (cell : Named env tas c s) :
    process ∈ events.emitters.procs s ↔ Offers A env tas o (.emit c) := by
  rw [tabled.emitted]
  constructor
  · rintro ⟨o', c', named', cell', offers⟩
    rwa [same_owner tractable named named', same_cell tractable cell cell']
  · exact fun offers => ⟨o, c, named, cell, offers⟩

theorem receiver_iff (named : Names env tas o process) (cell : Named env tas c s) :
    process ∈ events.receivers.procs s ↔ Offers A env tas o (.receive c) := by
  rw [tabled.received]
  constructor
  · rintro ⟨o', c', named', cell', offers⟩
    rwa [same_owner tractable named named', same_cell tractable cell cell']
  · exact fun offers => ⟨o, c, named, cell, offers⟩

/-- No label has a sole emitter whose receptions are lost. -/
theorem not_soleEmitterReceives (noSole : NoSoleEmitter A env tas) (s : String) :
    ¬ SoleEmitterReceives (events.emitters.procs s) (events.receivers.procs s) := by
  rintro ⟨process, sole, receives, other, receives', differ⟩
  obtain ⟨o, c, named, cell, emits⟩ := (tabled.emitted process s).mp ((sole process).mpr rfl)
  obtain ⟨o', c', named', cell', offers⟩ := (tabled.received other s).mp receives'
  rw [← same_cell tractable cell cell'] at offers
  have one : ∀ o'', Offers A env tas o'' (.emit c) ↔ o'' = o := by
    intro o''
    constructor
    · intro emits'
      obtain ⟨l, x, edge⟩ := id emits'
      cases edge with
      | edge lives =>
      have named'' : Names env tas o'' _ := ⟨_, lives, rfl⟩
      have inside := (sole _).mp ((emitter_iff tractable tabled named'' cell).mpr emits')
      rw [inside] at named''
      exact same_owner tractable named'' named
    · rintro rfl
      exact emits
  have owners := noSole c o one ((receiver_iff tractable tabled named cell).mp receives) o' offers
  rw [owners] at named'
  exact differ (same_name tractable named' named)

end

section

variable {V : Type} {A : Arithmetic V} {env : Env} {tas : TimedAutomataSystem} {events : GlobalEvents}
  {vectors : List SyncVector} {ready : Owner → Signal → Prop} {ready' : String → String → Prop}
  {order : Schedule} {o o' : Owner} {c : Cell} {process process' s : String}
  (tractable : Tractable A env tas) (alike : ReadyAlike A env tas ready ready')

include tractable alike

/-! ## Who is ready -/

omit tractable in
theorem emitter_of_ready (can : ready o (.emit c)) : ∃ process s, Names env tas o process ∧
    Named env tas c s ∧ ready' process (emitEvent s) := by
  obtain ⟨process, event, named, same, can'⟩ := alike.forth o _ can
  cases same with
  | emit cell => exact ⟨process, _, named, cell, can'⟩

omit tractable in
theorem receiver_of_ready (can : ready o (.receive c)) : ∃ process s, Names env tas o process ∧
    Named env tas c s ∧ ready' process (recvEvent s) := by
  obtain ⟨process, event, named, same, can'⟩ := alike.forth o _ can
  cases same with
  | receive cell => exact ⟨process, _, named, cell, can'⟩

/-- An instance that is ready for a cell has a process that is ready for its event. -/
theorem ready_recv (named : Names env tas o process) (cell : Named env tas c s)
    (can : ready o (.receive c)) : ready' process (recvEvent s) := by
  obtain ⟨process', s', named', cell', can'⟩ := receiver_of_ready alike can
  rwa [same_name tractable named named', cell.unique tractable.scopes.toDistinctSymbols cell']

theorem ready_recv' (cell : Named env tas c s) (can : ready' process (recvEvent s)) :
    ∃ o, Names env tas o process ∧ ready o (.receive c) := by
  obtain ⟨o, signal, named, same, can'⟩ := alike.back _ _ can
  obtain ⟨c', rfl, cell'⟩ := receive_of_sameEvent same
  rw [← same_cell tractable cell cell'] at can'
  exact ⟨o, named, can'⟩

variable (tabled : Tabled A env tas events vectors)

include tabled

theorem emitter_recorded (named : Names env tas o process) (cell : Named env tas c s)
    (can : ready o (.emit c)) : process ∈ events.emitters.procs s :=
  (emitter_iff tractable tabled named cell).mpr (alike.offers o _ can)

theorem receiver_recorded (cell : Named env tas c s) (can : ready' process (recvEvent s)) :
    process ∈ events.receivers.procs s := by
  obtain ⟨o, named, can'⟩ := ready_recv' tractable alike cell can
  exact (receiver_iff tractable tabled named cell).mpr (alike.offers o _ can')

omit tractable alike in
/-- An event of a label is asynchronous if no vector of its label lists it. -/
theorem asynchronous_of_label {kind : SyncKind} (noCsp : kind ≠ .csp)
    (free : Asynchronous (labelVectors events s) process (eventOf kind s)) :
    Asynchronous vectors process (eventOf kind s) := by
  intro v listed x member same
  obtain ⟨t, label⟩ := (tabled.vectors v).mp listed
  obtain ⟨_, event⟩ := Prod.mk.inj same
  have labels : t = s := by
    have plain : SyncKind.bang ≠ .csp ∧ SyncKind.que ≠ .csp := by decide
    rcases (labelVectors_own events t v label).2 x member with other | other | other
    · exact (eventOf_inj plain.1 noCsp (other.symm.trans event)).2
    · exact (eventOf_inj plain.2 noCsp (other.symm.trans event)).2
    · rw [event] at other
      cases kind with
      | que => exact absurd other (recvEvent_ne_noSync s)
      | bang => exact absurd other (emitEvent_ne_noSync s)
      | csp => exact absurd rfl noCsp
  subst labels
  exact free v label x member same

/-! ## Moves of the model -/

omit tractable alike in
/-- A move along a vector, in an order that is allowed. -/
theorem along_vector {v : SyncVector} {l : List (Owner × Signal)} {who : List (String × String)}
    (labels : List.Forall₂ (dictionary A env tas).Label l who) (label : v ∈ labelVectors events s)
    (strong : ∀ x ∈ v, x.weak = false → (x.process, x.event) ∈ who)
    (weak : ∀ x ∈ v, ready' x.process x.event → (x.process, x.event) ∈ who)
    (inside : ∀ a ∈ who, ∃ x ∈ v, (x.process, x.event) = a) :
    ∃ l₂ l', l.Perm l₂ ∧ List.Forall₂ (dictionary A env tas).Label l₂ l' ∧
      Tchecker.Together order vectors ready' l' := by
  obtain ⟨l', perm, allowed⟩ := order.complete who
  obtain ⟨l₂, perm', labels'⟩ := exists_perm_of_forall₂ labels perm
  refine ⟨l₂, l', perm', labels', .along ((tabled.vectors v).mpr ⟨s, label⟩) ?_ ?_ ?_ allowed⟩
  · exact fun x member isStrong => perm.mem_iff.mpr (strong x member isStrong)
  · exact fun x member can => perm.mem_iff.mpr (weak x member can)
  · exact fun a member => inside a (perm.mem_iff.mp member)

/-- An emitter and a receiver move along the vector of their processes. -/
theorem binary_forward (plain : declaredBroadcast (env.getType c.symbol) = false) (others : o ≠ o')
    (emits : ready o (.emit c)) (receives : ready o' (.receive c)) :
    ∃ l₂ l', [(o, Signal.emit c), (o', .receive c)].Perm l₂ ∧
      List.Forall₂ (dictionary A env tas).Label l₂ l' ∧ Tchecker.Together order vectors ready' l' := by
  obtain ⟨process, s, named, cell, can⟩ := emitter_of_ready alike emits
  obtain ⟨process', s', named', cell', can'⟩ := receiver_of_ready alike receives
  obtain rfl := cell.unique tractable.scopes.toDistinctSymbols cell'
  have differ : process ≠ process' := by
    rintro rfl
    exact others (same_owner tractable named named')
  have notBroadcast : s ∉ events.brodcasts := by
    rw [tabled.modes o c s cell (.inl (alike.offers o _ emits)), plain]
    exact Bool.false_ne_true
  have vector : pairVector process (emitEvent s) process' (recvEvent s) ∈ labelVectors events s := by
    rw [labelVectors_of_plain notBroadcast]
    exact mem_binaryLines.mpr (.inl ⟨process, emitter_recorded tractable alike tabled named cell emits,
      process', receiver_recorded tractable alike tabled cell can', differ, rfl⟩)
  have labels : List.Forall₂ (dictionary A env tas).Label [(o, Signal.emit c), (o', .receive c)]
      [(process, emitEvent s), (process', recvEvent s)] :=
    .cons ⟨named, .emit cell⟩ (.cons ⟨named', .receive cell⟩ .nil)
  refine along_vector tabled labels vector ?_ ?_ ?_
  · intro x member _
    rcases (mem_pairVector differ).mp member with rfl | rfl <;> simp
  · intro x member _
    rcases (mem_pairVector differ).mp member with rfl | rfl <;> simp
  · intro a member
    rcases List.mem_pair.mp member with rfl | rfl
    · exact ⟨_, (mem_pairVector differ).mpr (.inl rfl), rfl⟩
    · exact ⟨_, (mem_pairVector differ).mpr (.inr rfl), rfl⟩

/-- An emitter and all receivers move along the vector of the emitter, or the emitter
moves alone if there is no other process that could ever receive. -/
theorem broadcast_forward {receivers : List Owner} (mode : declaredBroadcast (env.getType c.symbol) = true)
    (all : ∀ o', o' ∈ receivers ↔ o' ≠ o ∧ ready o' (.receive c)) (emits : ready o (.emit c)) :
    ∃ l₂ l', ((o, Signal.emit c) :: receivers.map fun o' => (o', Signal.receive c)).Perm l₂ ∧
      List.Forall₂ (dictionary A env tas).Label l₂ l' ∧ Tchecker.Together order vectors ready' l' := by
  obtain ⟨process, s, named, cell, can⟩ := emitter_of_ready alike emits
  have broadcast : s ∈ events.brodcasts := by
    rw [tabled.modes o c s cell (.inl (alike.offers o _ emits)), mode]
  -- the processes of the receivers
  obtain ⟨processes, names⟩ : ∃ processes : List String, List.Forall₂ (fun process o =>
      Names env tas o process ∧ ready' process (recvEvent s)) processes receivers := by
    apply exists_forall₂
    intro o' member
    have can' := ((all o').mp member).2
    obtain ⟨process', _, named', _, _⟩ := receiver_of_ready alike can'
    exact ⟨process', named', ready_recv tractable alike named' cell can'⟩
  have labels : List.Forall₂ (dictionary A env tas).Label
      ((o, Signal.emit c) :: receivers.map fun o' => (o', Signal.receive c))
      ((process, emitEvent s) :: processes.map fun process => (process, recvEvent s)) := by
    refine .cons ⟨named, .emit cell⟩ ?_
    rw [List.forall₂_map_left_iff, List.forall₂_map_right_iff]
    exact names.flip.imp fun o' process' both => ⟨both.1, .receive cell⟩
  -- a process that is ready takes part
  have joins {process' : String} (other : process ≠ process') (can' : ready' process' (recvEvent s)) :
      process' ∈ processes := by
    obtain ⟨o', named', can''⟩ := ready_recv' tractable alike cell can'
    have member : o' ∈ receivers := by
      refine (all o').mpr ⟨?_, can''⟩
      rintro rfl
      exact other (same_name tractable named named')
    obtain ⟨process'', member', named'', _⟩ := exists_of_forall₂ names.flip member
    rwa [same_name tractable named' named'']
  have apart {process' : String} (member : process' ∈ processes) : process ≠ process' := by
    rintro rfl
    obtain ⟨o', member', named', _⟩ := exists_of_forall₂ names member
    exact ((all o').mp member').1 (same_owner tractable named' named)
  by_cases partner : ∃ process' ∈ events.receivers.procs s, process ≠ process'
  · have vector : broadcastVector s process (events.receivers.procs s) ∈ labelVectors events s := by
      rw [labelVectors_of_broadcast broadcast]
      exact mem_broadcastLines.mpr
        (.inl ⟨process, emitter_recorded tractable alike tabled named cell emits, partner, rfl⟩)
    refine along_vector tabled labels vector ?_ ?_ ?_
    · intro x member isStrong
      rcases mem_broadcastVector.mp member with rfl | ⟨process', _, _, rfl⟩
      · exact List.mem_cons_self
      · cases isStrong
    · intro x member can'
      rcases mem_broadcastVector.mp member with rfl | ⟨process', _, other, rfl⟩
      · exact List.mem_cons_self
      · exact List.mem_cons_of_mem _ (List.mem_map_of_mem (joins other can'))
    · intro a member
      rcases List.mem_cons.mp member with rfl | member
      · exact ⟨_, mem_broadcastVector.mpr (.inl rfl), rfl⟩
      · obtain ⟨process', listed, rfl⟩ := List.mem_map.mp member
        obtain ⟨o', _, named', can'⟩ := exists_of_forall₂ names listed
        exact ⟨_, mem_broadcastVector.mpr (.inr ⟨process',
          receiver_recorded tractable alike tabled cell can', apart listed, rfl⟩), rfl⟩
  · push Not at partner
    have nobody : processes = [] := by
      rw [List.eq_nil_iff_forall_not_mem]
      intro process' listed
      obtain ⟨o', _, named', can'⟩ := exists_of_forall₂ names listed
      exact apart listed (partner process' (receiver_recorded tractable alike tabled cell can'))
    rw [nobody] at labels
    have free : Asynchronous (labelVectors events s) process (eventOf .bang s) := by
      rw [labelVectors_of_broadcast broadcast]
      exact broadcastLines_alone partner
    exact ⟨_, _, .refl _, labels, .alone (asynchronous_of_label tabled (by decide) free)⟩

omit tractable alike in
theorem asynchronous_tau : Asynchronous vectors process tauEvent := by
  intro v listed x member same
  obtain ⟨s, label⟩ := (tabled.vectors v).mp listed
  obtain ⟨_, event⟩ := Prod.mk.inj same
  rcases (labelVectors_own events s v label).2 x member with other | other | other
  · exact tauEvent_ne_append (by decide) (event.symm.trans other)
  · exact tauEvent_ne_append (by decide) (event.symm.trans other)
  · exact absurd (event.symm.trans other) (by decide)

/-- What may move together in the model may move together in the output. -/
theorem together_forward {l : List (Owner × Signal)} (together : Uppaal.Together env ready l)
    (can : ∀ a ∈ l, ready a.1 a.2) : ∃ l₂ l', l.Perm l₂ ∧
      List.Forall₂ (dictionary A env tas).Label l₂ l' ∧ Tchecker.Together order vectors ready' l' := by
  cases together with
  | @alone o =>
      obtain ⟨process, event, named, same, _⟩ := alike.forth o .internal (can _ List.mem_cons_self)
      cases same with
      | internal =>
      have labels : List.Forall₂ (dictionary A env tas).Label [(o, Signal.internal)] [(process, tauEvent)] :=
        .cons ⟨named, .internal⟩ .nil
      exact ⟨_, _, .refl _, labels, .alone (asynchronous_tau tabled)⟩
  | @binary o o' c plain others =>
      exact binary_forward tractable alike tabled plain others (can _ List.mem_cons_self)
        (can (o', .receive c) (List.mem_cons_of_mem _ List.mem_cons_self))
  | broadcast mode all =>
      exact broadcast_forward tractable alike tabled mode all (can _ List.mem_cons_self)

/-! ## Moves of the output -/

omit tractable tabled in
/-- A vector with the process that never moves allows no move. -/
theorem not_blocked {event : String} {who : List (String × String)} (differ : process ≠ stuckProcess)
    (strong : ∀ x ∈ blockedVector process event, x.weak = false → (x.process, x.event) ∈ who)
    (can : ∀ a ∈ who, ready' a.1 a.2) : False := by
  have stuck := strong _ ((mem_blockedVector differ).mpr (.inr rfl)) rfl
  obtain ⟨o, signal, _, same, _⟩ := alike.back _ _ (can _ stuck)
  exact not_sameEvent_nosync same

/-- The processes of a pair of a vector move as an emitter and a receiver. -/
theorem binary_backward {pe pr : String} {who : List (String × String)} (differ : pe ≠ pr)
    (plain : s ∉ events.brodcasts)
    (strong : ∀ x ∈ pairVector pe (emitEvent s) pr (recvEvent s), x.weak = false →
      (x.process, x.event) ∈ who)
    (inside : ∀ a ∈ who, ∃ x ∈ pairVector pe (emitEvent s) pr (recvEvent s), (x.process, x.event) = a)
    (can : ∀ a ∈ who, ready' a.1 a.2) (distinct : (who.map Prod.fst).Nodup) :
    ∃ l₂ l, List.Forall₂ (dictionary A env tas).Label l₂ who ∧ l₂.Perm l ∧ Uppaal.Together env ready l := by
  have emits := strong _ ((mem_pairVector differ).mpr (.inl rfl)) rfl
  have receives := strong _ ((mem_pairVector differ).mpr (.inr rfl)) rfl
  obtain ⟨o, signal, named, same, can₁⟩ := alike.back _ _ (can _ emits)
  obtain ⟨c, rfl, cell⟩ := emit_of_sameEvent same
  obtain ⟨o', named', can₂⟩ := ready_recv' tractable alike cell (can _ receives)
  have others : o ≠ o' := by
    rintro rfl
    exact differ (same_name tractable named named')
  have mode : declaredBroadcast (env.getType c.symbol) = false := by
    rw [← Bool.not_eq_true, ← tabled.modes o c s cell (.inl (alike.offers o _ can₁))]
    exact plain
  have perm : who.Perm [(pe, emitEvent s), (pr, recvEvent s)] := by
    refine (List.perm_ext_iff_of_nodup (List.Nodup.of_map _ distinct) ?_).mpr fun a => ?_
    · exact List.nodup_cons.mpr ⟨fun listed => differ (congrArg Prod.fst (List.mem_singleton.mp listed)),
        List.nodup_singleton _⟩
    · rw [List.mem_pair]
      constructor
      · intro member
        obtain ⟨x, listed, rfl⟩ := inside a member
        rcases (mem_pairVector differ).mp listed with rfl | rfl
        · exact .inl rfl
        · exact .inr rfl
      · rintro (rfl | rfl)
        · exact emits
        · exact receives
  have labels : List.Forall₂ (dictionary A env tas).Label [(o, Signal.emit c), (o', .receive c)]
      [(pe, emitEvent s), (pr, recvEvent s)] :=
    .cons ⟨named, .emit cell⟩ (.cons ⟨named', .receive cell⟩ .nil)
  obtain ⟨l₂, perm', labels'⟩ := exists_perm_of_forall₂ labels perm
  exact ⟨l₂, _, labels', perm'.symm, .binary mode others⟩

/-- The processes of the vector of an emitter that are ready move as an emitter and
all receivers. -/
theorem broadcast_backward {pe : String} {who : List (String × String)} (broadcast : s ∈ events.brodcasts)
    (strong : ∀ x ∈ broadcastVector s pe (events.receivers.procs s), x.weak = false →
      (x.process, x.event) ∈ who)
    (weak : ∀ x ∈ broadcastVector s pe (events.receivers.procs s), ready' x.process x.event →
      (x.process, x.event) ∈ who)
    (inside : ∀ a ∈ who, ∃ x ∈ broadcastVector s pe (events.receivers.procs s),
      (x.process, x.event) = a)
    (can : ∀ a ∈ who, ready' a.1 a.2) (distinct : (who.map Prod.fst).Nodup) :
    ∃ l₂ l, List.Forall₂ (dictionary A env tas).Label l₂ who ∧ l₂.Perm l ∧ Uppaal.Together env ready l := by
  have emits := strong _ (mem_broadcastVector.mpr (.inl rfl)) rfl
  obtain ⟨o, signal, named, same, can₁⟩ := alike.back _ _ (can _ emits)
  obtain ⟨c, rfl, cell⟩ := emit_of_sameEvent same
  have mode : declaredBroadcast (env.getType c.symbol) = true := by
    rw [← tabled.modes o c s cell (.inl (alike.offers o _ can₁))]
    exact broadcast
  -- the other participants receive
  have perm := List.perm_cons_erase emits
  have distinct' := (perm.map Prod.fst).nodup_iff.mp distinct
  rw [List.map_cons, List.nodup_cons] at distinct'
  have received : ∀ a ∈ who.erase (pe, emitEvent s), a.2 = recvEvent s ∧ a.1 ≠ pe := by
    intro a member
    have other : a.1 ≠ pe := by
      intro same'
      have listed := List.mem_map_of_mem (f := Prod.fst) member
      rw [same'] at listed
      exact distinct'.1 listed
    obtain ⟨x, listed, rfl⟩ := inside a (List.mem_of_mem_erase member)
    rcases mem_broadcastVector.mp listed with rfl | ⟨pr, _, _, rfl⟩
    · exact absurd rfl other
    · exact ⟨rfl, other⟩
  obtain ⟨receivers, names⟩ : ∃ receivers : List Owner, List.Forall₂ (fun o' (a : String × String) =>
      Names env tas o' a.1 ∧ ready o' (.receive c) ∧ a.2 = recvEvent s) receivers
        (who.erase (pe, emitEvent s)) := by
    apply exists_forall₂
    intro a member
    have ready := can a (List.mem_of_mem_erase member)
    rw [(received a member).1] at ready
    obtain ⟨o', named', can'⟩ := ready_recv' tractable alike cell ready
    exact ⟨o', named', can', (received a member).1⟩
  have all : ∀ o', o' ∈ receivers ↔ o' ≠ o ∧ ready o' (.receive c) := by
    intro o'
    constructor
    · intro listed
      obtain ⟨a, member, named', can', _⟩ := exists_of_forall₂ names listed
      refine ⟨?_, can'⟩
      rintro rfl
      exact (received a member).2 (same_name tractable named' named)
    · rintro ⟨differ, can'⟩
      obtain ⟨pr, _, named', _, _⟩ := receiver_of_ready alike can'
      have can'' := ready_recv tractable alike named' cell can'
      have other : pe ≠ pr := by
        rintro rfl
        exact differ (same_owner tractable named' named)
      have joins := weak _ (mem_broadcastVector.mpr (.inr ⟨pr,
        receiver_recorded tractable alike tabled cell can'', other, rfl⟩)) can''
      have rest : (pr, recvEvent s) ∈ who.erase (pe, emitEvent s) :=
        (List.mem_erase_of_ne fun equal => other (congrArg Prod.fst equal).symm).mpr joins
      obtain ⟨o'', member, named'', _⟩ := exists_of_forall₂ names.flip rest
      rwa [same_owner tractable named' named'']
  have labels : List.Forall₂ (dictionary A env tas).Label
      ((o, Signal.emit c) :: receivers.map fun o' => (o', Signal.receive c))
      ((pe, emitEvent s) :: who.erase (pe, emitEvent s)) := by
    refine .cons ⟨named, .emit cell⟩ ?_
    rw [List.forall₂_map_left_iff]
    refine names.imp fun o' a both => ⟨both.1, ?_⟩
    rw [both.2.2]
    exact .receive cell
  obtain ⟨l₂, perm', labels'⟩ := exists_perm_of_forall₂ labels perm
  exact ⟨l₂, _, labels', perm'.symm, .broadcast mode all⟩

omit tractable alike in
/-- An event that a vector of its label lists is not asynchronous. -/
theorem not_asynchronous {v : SyncVector} {event : String} {weak : Bool} (label : v ∈ labelVectors events s)
    (listed : ⟨process, event, weak⟩ ∈ v) : ¬ Asynchronous vectors process event :=
  fun free => free v ((tabled.vectors v).mpr ⟨s, label⟩) _ listed rfl

/-- An emitter that moves alone is one of a broadcast nobody can receive. -/
theorem emission_backward (named : Names env tas o process) (cell : Named env tas c s)
    (emits : ready o (.emit c)) (free : Asynchronous vectors process (emitEvent s)) :
    Uppaal.Together env ready [(o, .emit c)] := by
  have sends := emitter_recorded tractable alike tabled named cell emits
  by_cases broadcast : s ∈ events.brodcasts
  · have mode : declaredBroadcast (env.getType c.symbol) = true := by
      rw [← tabled.modes o c s cell (.inl (alike.offers o _ emits))]
      exact broadcast
    have alone : ∀ pr ∈ events.receivers.procs s, process = pr := by
      by_contra partner
      push Not at partner
      have label : broadcastVector s process (events.receivers.procs s) ∈ labelVectors events s := by
        rw [labelVectors_of_broadcast broadcast]
        exact mem_broadcastLines.mpr (.inl ⟨process, sends, partner, rfl⟩)
      exact not_asynchronous tabled label (mem_broadcastVector.mpr (.inl rfl)) free
    have nobody : ∀ o', o' ∈ ([] : List Owner) ↔ o' ≠ o ∧ ready o' (.receive c) := by
      refine fun o' => ⟨fun listed => absurd listed List.not_mem_nil, ?_⟩
      rintro ⟨differ, can⟩
      obtain ⟨pr, _, named', _, _⟩ := receiver_of_ready alike can
      have recorded := receiver_recorded tractable alike tabled cell
        (ready_recv tractable alike named' cell can)
      rw [← alone pr recorded] at named'
      exact absurd (same_owner tractable named' named) differ
    exact .broadcast mode nobody
  · obtain ⟨v, member, listed⟩ : ∃ v ∈ labelVectors events s, ⟨process, emitEvent s, false⟩ ∈ v := by
      rw [labelVectors_of_plain broadcast]
      exact binaryLines_emitted sends
    exact absurd free (not_asynchronous tabled member listed)

variable (noSole : NoSoleEmitter A env tas)

include noSole

omit alike in
/-- No process receives alone. -/
theorem reception_not_free (receives : process ∈ events.receivers.procs s) :
    ¬ Asynchronous vectors process (recvEvent s) := by
  have covered := not_soleEmitterReceives tractable tabled noSole s
  by_cases broadcast : s ∈ events.brodcasts
  · obtain ⟨v, member, weak, listed⟩ := broadcastLines_received covered receives
    rw [← labelVectors_of_broadcast broadcast] at member
    exact not_asynchronous tabled member listed
  · obtain ⟨v, member, listed⟩ := binaryLines_received covered receives
    rw [← labelVectors_of_plain broadcast] at member
    exact not_asynchronous tabled member listed

/-- What may move together in the output may move together in the model. -/
theorem together_backward {l' : List (String × String)}
    (together : Tchecker.Together order vectors ready' l') (can : ∀ a ∈ l', ready' a.1 a.2)
    (distinct : (l'.map Prod.fst).Nodup) : ∃ l₂ l,
      List.Forall₂ (dictionary A env tas).Label l₂ l' ∧ l₂.Perm l ∧ Uppaal.Together env ready l := by
  cases together with
  | @alone process event free =>
      obtain ⟨o, signal, named, same, can'⟩ := alike.back _ _ (can _ List.mem_cons_self)
      have labels : List.Forall₂ (dictionary A env tas).Label [(o, signal)] [(process, event)] :=
        .cons ⟨named, same⟩ .nil
      refine ⟨_, _, labels, .refl _, ?_⟩
      cases same with
      | internal => exact .alone
      | emit cell => exact emission_backward tractable alike tabled named cell can' free
      | receive cell =>
          have recorded := receiver_recorded tractable alike tabled cell (can _ List.mem_cons_self)
          exact absurd free (reception_not_free tractable tabled noSole recorded)
  | @along v _ listed strong weak inside _ =>
      obtain ⟨s, label⟩ := (tabled.vectors v).mp listed
      have emitter {pe : String} (sends : pe ∈ events.emitters.procs s) : pe ≠ stuckProcess := by
        obtain ⟨_, _, named, _⟩ := (tabled.emitted pe s).mp sends
        exact ne_stuck tractable named
      have receiver {pr : String} (receives : pr ∈ events.receivers.procs s) : pr ≠ stuckProcess := by
        obtain ⟨_, _, named, _⟩ := (tabled.received pr s).mp receives
        exact ne_stuck tractable named
      by_cases broadcast : s ∈ events.brodcasts
      · rw [labelVectors_of_broadcast broadcast] at label
        rcases mem_broadcastLines.mp label with ⟨pe, sends, _, rfl⟩ | ⟨_, pr, receives, rfl⟩
        · exact broadcast_backward tractable alike tabled broadcast strong weak inside can distinct
        · exact (not_blocked alike (receiver receives) strong can).elim
      · rw [labelVectors_of_plain broadcast] at label
        rcases mem_binaryLines.mp label with ⟨pe, sends, pr, receives, differ, rfl⟩ |
          ⟨pe, sends, _, rfl⟩ | ⟨_, pr, receives, rfl⟩
        · exact binary_backward tractable alike tabled differ broadcast strong inside can distinct
        · exact (not_blocked alike (emitter sends) strong can).elim
        · exact (not_blocked alike (receiver receives) strong can).elim

end

end Utot
