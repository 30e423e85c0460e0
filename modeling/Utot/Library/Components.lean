import Mathlib.Data.List.Nodup
import Mathlib.Data.List.Perm.Basic
import Mathlib.Data.Option.Basic
import Utot.Library.Transitions

/-!
# Networks of components over shared data

Components with places of their own share data.  A component takes an edge if
its guard holds; a rule of the network says which components take edges
together, and their updates are performed one after the other.  Time passes for
all components at once.
-/

namespace Utot.Library

variable {I Q E D T : Type}

/-- What an edge does: where it may be taken, its effect on the data and its target. -/
structure Effect (Q D : Type) where
  guard : D → Prop
  update : D → Option D
  target : Q

/-- A network of components `I` with places `Q`, events `E` and data `D`. -/
structure Network (I Q E D T : Type) where
  edge : I → Q → E → Effect Q D → Prop
  invariant : I → Q → D → Prop
  committed : I → Q → Prop
  urgent : I → Q → Prop
  /-- Who may move together, by the events the components are ready for. -/
  together : (I → E → Prop) → List (I × E) → Prop
  /-- A joint move is urgent. -/
  hurried : (I → E → Prop) → Prop
  elapse : T → D → D

structure Configuration (I Q D : Type) where
  place : I → Q
  data : D

/-- A component that takes an edge. -/
structure Participant (I Q E D : Type) where
  owner : I
  event : E
  effect : Effect Q D

/-- The label of a step. -/
inductive Move (I E T : Type) where
  | joint (who : List (I × E))
  | delay (t : T)

/-- The move is one of participants. -/
def Move.Joint : Move I E T → Prop
  | .joint _ => True
  | .delay _ => False

abbrev Participant.label (t : Participant I Q E D) : I × E := (t.owner, t.event)

/-- The updates of the participants, one after the other. -/
def perform : List (Participant I Q E D) → D → Option D
  | [], d => some d
  | t :: rest, d => (t.effect.update d).bind (perform rest)

namespace Network

/-- A component can take an edge with the event. -/
def Ready (N : Network I Q E D T) (c : Configuration I Q D) (i : I) (e : E) : Prop :=
  ∃ x, N.edge i (c.place i) e x ∧ x.guard c.data

/-- The participants take their edges. -/
structure Fires (N : Network I Q E D T) (who : List (Participant I Q E D))
    (c c' : Configuration I Q D) : Prop where
  distinct : (who.map Participant.owner).Nodup
  edges : ∀ t ∈ who, N.edge t.owner (c.place t.owner) t.event t.effect
  guards : ∀ t ∈ who, t.effect.guard c.data
  /-- Committed places are left first. -/
  commits : (∃ i, N.committed i (c.place i)) → ∃ t ∈ who, N.committed t.owner (c.place t.owner)
  performed : perform who c.data = some c'.data
  arrives : ∀ t ∈ who, c'.place t.owner = t.effect.target
  stays : ∀ i, (∀ t ∈ who, t.owner ≠ i) → c'.place i = c.place i
  invariants : ∀ i, N.invariant i (c'.place i) c'.data

/-- Time passes, and the invariants hold all the time. -/
structure Elapses [LE T] (N : Network I Q E D T) (t : T) (c c' : Configuration I Q D) : Prop where
  place : c'.place = c.place
  data : c'.data = N.elapse t c.data
  free : ∀ i, ¬ N.committed i (c.place i) ∧ ¬ N.urgent i (c.place i)
  calm : ¬ N.hurried (N.Ready c)
  invariants : ∀ t' ≤ t, ∀ i, N.invariant i (c.place i) (N.elapse t' c.data)

inductive Step [LE T] (N : Network I Q E D T) :
    Configuration I Q D → Move I E T → Configuration I Q D → Prop where
  | joint {c c' : Configuration I Q D} {who : List (Participant I Q E D)}
      (allowed : N.together (N.Ready c) (who.map Participant.label)) (fires : N.Fires who c c') :
      Step N c (.joint (who.map Participant.label)) c'
  | delay {c c' : Configuration I Q D} {t : T} (elapses : N.Elapses t c c') : Step N c (.delay t) c'

/-- The transition system of a network. -/
def system [LE T] (N : Network I Q E D T) (start : Configuration I Q D → Prop) :
    System (Configuration I Q D) (Move I E T) :=
  ⟨start, N.Step⟩

/-- No joint move is possible, neither now nor later. -/
def Deadlocked [LE T] (N : Network I Q E D T) (start : Configuration I Q D → Prop)
    (c : Configuration I Q D) : Prop :=
  (N.system start).Deadlocked (fun l => ¬ l.Joint) Move.Joint c

/-- The component takes no part in anything. -/
structure Idle (N : Network I Q E D T) (i : I) : Prop where
  edge : ∀ q e x, ¬ N.edge i q e x
  invariant : ∀ q d, N.invariant i q d
  committed : ∀ q, ¬ N.committed i q
  urgent : ∀ q, ¬ N.urgent i q

end Network

/-! ## Updates in another order -/

section

variable {N : Network I Q E D T} {c c' : Configuration I Q D} {who who' : List (Participant I Q E D)}

def Commute (x y : Effect Q D) : Prop :=
  ∀ d, (x.update d).bind y.update = (y.update d).bind x.update

/-- The updates of a joint move do not depend on their order. -/
def Network.Commuting (N : Network I Q E D T) : Prop :=
  ∀ ready who, N.together ready who → ∀ i e j f, (i, e) ∈ who → (j, f) ∈ who → i ≠ j →
    ∀ q r x y, N.edge i q e x → N.edge j r f y → Commute x y

theorem perform_perm (same : who.Perm who')
    (commute : ∀ s ∈ who, ∀ t ∈ who, Commute s.effect t.effect) (d : D) :
    perform who d = perform who' d := by
  induction same generalizing d with
  | nil => rfl
  | cons t _ ih =>
      have later := ih fun s member t member' =>
        commute s (List.mem_cons_of_mem _ member) t (List.mem_cons_of_mem _ member')
      unfold perform
      congr 1
      funext d'
      exact later d'
  | swap s t rest =>
      have both := commute t List.mem_cons_self s (List.mem_cons_of_mem _ List.mem_cons_self) d
      simp only [perform]
      change (t.effect.update d).bind (fun d' => (s.effect.update d').bind (perform rest)) =
        (s.effect.update d).bind fun d' => (t.effect.update d').bind (perform rest)
      rw [← Option.bind_assoc, both, Option.bind_assoc]
  | trans first _ ih ih' =>
      rw [ih commute, ih' fun s member t member' =>
        commute s (first.mem_iff.mpr member) t (first.mem_iff.mpr member')]

/-- Two participants with one owner are the same. -/
theorem Network.Fires.owner_inj (fires : N.Fires who c c') {s t : Participant I Q E D} (member : s ∈ who)
    (member' : t ∈ who) (same : s.owner = t.owner) : s = t :=
  List.inj_on_of_nodup_map fires.distinct member member' same

theorem Network.Fires.perm (fires : N.Fires who c c') (same : who.Perm who')
    (commute : ∀ s ∈ who, ∀ t ∈ who, s.owner ≠ t.owner → Commute s.effect t.effect) :
    N.Fires who' c c' := by
  have all : ∀ s ∈ who, ∀ t ∈ who, Commute s.effect t.effect := by
    intro s member t member'
    by_cases owners : s.owner = t.owner
    · rw [fires.owner_inj member member' owners]
      exact fun _ => rfl
    · exact commute s member t member' owners
  constructor
  · exact (same.map _).nodup_iff.mp fires.distinct
  · exact fun t member => fires.edges t (same.mem_iff.mpr member)
  · exact fun t member => fires.guards t (same.mem_iff.mpr member)
  · intro committed
    obtain ⟨t, member, leaves⟩ := fires.commits committed
    exact ⟨t, same.mem_iff.mp member, leaves⟩
  · rw [← perform_perm same all]
    exact fires.performed
  · exact fun t member => fires.arrives t (same.mem_iff.mpr member)
  · exact fun i absent => fires.stays i fun t member => absent t (same.mem_iff.mp member)
  · exact fires.invariants

/-- Participants in the order of their labels. -/
theorem exists_perm_of_labels {l : List (I × E)} (same : (who.map Participant.label).Perm l) :
    ∃ who', who.Perm who' ∧ who'.map Participant.label = l := by
  have labelled : List.Forall₂ (fun a (t : Participant I Q E D) => t.label = a)
      (who.map Participant.label) who := by
    rw [List.forall₂_map_left_iff]
    exact List.forall₂_same.mpr fun _ _ => rfl
  obtain ⟨who', aligned, perm⟩ := List.perm_comp_forall₂ same.symm labelled
  refine ⟨who', perm.symm, ?_⟩
  clear perm labelled same
  induction aligned with
  | nil => rfl
  | cons first _ ih => rw [List.map_cons, first, ih]

theorem Network.Commuting.fires (commuting : N.Commuting)
    (allowed : N.together (N.Ready c) (who.map Participant.label)) (fires : N.Fires who c c')
    (same : who.Perm who') : N.Fires who' c c' := by
  refine fires.perm same fun s member t member' differ => ?_
  exact commuting _ _ allowed s.owner s.event t.owner t.event (List.mem_map_of_mem member)
    (List.mem_map_of_mem member') differ _ _ _ _ (fires.edges s member) (fires.edges t member')

end

/-! ## Two networks that correspond -/

variable {J P F B : Type}

/-- What components, places, events and data of two networks correspond. -/
structure Dictionary (I Q E D J P F B : Type) where
  names : I → J → Prop
  places : I → J → Q → P → Prop
  events : E → F → Prop
  datas : D → B → Prop

namespace Dictionary

variable (K : Dictionary I Q E D J P F B)

def flip : Dictionary J P F B I Q E D where
  names j i := K.names i j
  places j i r q := K.places i j q r
  events f e := K.events e f
  datas b d := K.datas d b

/-- Configurations that correspond. -/
structure Tied (c : Configuration I Q D) (c' : Configuration J P B) : Prop where
  places : ∀ i j, K.names i j → K.places i j (c.place i) (c'.place j)
  datas : K.datas c.data c'.data

/-- Effects that correspond. -/
structure SameEffect (i : I) (j : J) (x : Effect Q D) (y : Effect P B) : Prop where
  guard : ∀ d b, K.datas d b → (x.guard d ↔ y.guard b)
  update : ∀ d b, K.datas d b → Option.Rel K.datas (x.update d) (y.update b)
  target : K.places i j x.target y.target

/-- Participants that correspond. -/
structure Counterpart (t : Participant I Q E D) (u : Participant J P F B) : Prop where
  owner : K.names t.owner u.owner
  event : K.events t.event u.event
  effect : K.SameEffect t.owner u.owner t.effect u.effect

/-- Labels that correspond. -/
def Label (a : I × E) (b : J × F) : Prop := K.names a.1 b.1 ∧ K.events a.2 b.2

/-- Moves that correspond, whatever the order in which their participants are listed. -/
inductive Moves : Move I E T → Move J F T → Prop where
  | joint {l l₂ : List (I × E)} {l' : List (J × F)} (same : l.Perm l₂)
      (labels : List.Forall₂ K.Label l₂ l') : Moves (.joint l) (.joint l')
  | delay {t : T} : Moves (.delay t) (.delay t)

/-- The components of two networks correspond. -/
structure Matches (N : Network I Q E D T) (M : Network J P F B T) : Prop where
  oneName : ∀ i j j', K.names i j → K.names i j' → j = j'
  oneOwner : ∀ i i' j, K.names i j → K.names i' j → i = i'
  oneEvent : ∀ e f f', K.events e f → K.events e f' → f = f'
  oneSource : ∀ e e' f, K.events e f → K.events e' f → e = e'
  answer : ∀ i j q r, K.names i j → K.places i j q r → ∀ e x, N.edge i q e x →
    ∃ f y, K.events e f ∧ M.edge j r f y ∧ K.SameEffect i j x y
  answer' : ∀ i j q r, K.names i j → K.places i j q r → ∀ f y, M.edge j r f y →
    ∃ e x, K.events e f ∧ N.edge i q e x ∧ K.SameEffect i j x y
  invariant : ∀ i j q r d b, K.names i j → K.places i j q r → K.datas d b →
    (N.invariant i q d ↔ M.invariant j r b)
  committed : ∀ i j q r, K.names i j → K.places i j q r → (N.committed i q ↔ M.committed j r)
  urgent : ∀ i j q r, K.names i j → K.places i j q r → (N.urgent i q ↔ M.urgent j r)
  elapse : ∀ t d b, K.datas d b → K.datas (N.elapse t d) (M.elapse t b)
  /-- A component without a counterpart takes no part. -/
  idle : ∀ i, (∃ j, K.names i j) ∨ N.Idle i
  idle' : ∀ j, (∃ i, K.names i j) ∨ M.Idle j

/-- The rule of the second network allows the joint moves of the first, and time passes
in the second where it does in the first. -/
structure Follows (N : Network I Q E D T) (M : Network J P F B T) : Prop where
  forward : ∀ c c' l, K.Tied c c' → N.together (N.Ready c) l → (∀ a ∈ l, N.Ready c a.1 a.2) →
    (l.map Prod.fst).Nodup →
    ∃ l₂ l', l.Perm l₂ ∧ List.Forall₂ K.Label l₂ l' ∧ M.together (M.Ready c') l'
  calm : ∀ c c', K.Tied c c' → M.hurried (M.Ready c') → N.hurried (N.Ready c)

/-- The rules of two networks allow the same. -/
structure SameRule (N : Network I Q E D T) (M : Network J P F B T) : Prop extends K.Follows N M where
  backward : ∀ c c' l', K.Tied c c' → M.together (M.Ready c') l' → (∀ a ∈ l', M.Ready c' a.1 a.2) →
    (l'.map Prod.fst).Nodup →
    ∃ l₂ l, List.Forall₂ K.Label l₂ l' ∧ l₂.Perm l ∧ N.together (N.Ready c) l
  calm' : ∀ c c', K.Tied c c' → N.hurried (N.Ready c) → M.hurried (M.Ready c')

end Dictionary

section

variable {K : Dictionary I Q E D J P F B} {N : Network I Q E D T} {M : Network J P F B T}
  {c d : Configuration I Q D} {c' d' : Configuration J P B}
  {who : List (Participant I Q E D)} {who' : List (Participant J P F B)}

namespace Dictionary

theorem rel_swap {R : D → B → Prop} {x : Option D} {y : Option B} (related : Option.Rel R x y) :
    Option.Rel (fun b d => R d b) y x := by
  cases related with
  | none => exact .none
  | some values => exact .some values

theorem rel_andThen {R : D → B → Prop} {x : Option D} {y : Option B} {f : D → Option D}
    {g : B → Option B} (first : Option.Rel R x y) (second : ∀ d b, R d b → Option.Rel R (f d) (g b)) :
    Option.Rel R (x.bind f) (y.bind g) := by
  cases first with
  | none => exact .none
  | some values => exact second _ _ values

theorem SameEffect.flip {i : I} {j : J} {x : Effect Q D} {y : Effect P B} (same : K.SameEffect i j x y) :
    K.flip.SameEffect j i y x where
  guard d b related := (same.guard b d related).symm
  update d b related := rel_swap (same.update b d related)
  target := same.target

theorem Counterpart.flip {t : Participant I Q E D} {u : Participant J P F B} (same : K.Counterpart t u) :
    K.flip.Counterpart u t :=
  ⟨same.owner, same.event, same.effect.flip⟩

theorem Tied.flip (tied : K.Tied c c') : K.flip.Tied c' c :=
  ⟨fun j i named => tied.places i j named, tied.datas⟩

theorem Matches.flip (same : K.Matches N M) : K.flip.Matches M N where
  oneName j i i' first second := same.oneOwner i i' j first second
  oneOwner j j' i first second := same.oneName i j j' first second
  oneEvent f e e' first second := same.oneSource e e' f first second
  oneSource f f' e first second := same.oneEvent e f f' first second
  answer j i r q named places f y edge := by
    obtain ⟨e, x, event, edge', effect⟩ := same.answer' i j q r named places f y edge
    exact ⟨e, x, event, edge', effect.flip⟩
  answer' j i r q named places e x edge := by
    obtain ⟨f, y, event, edge', effect⟩ := same.answer i j q r named places e x edge
    exact ⟨f, y, event, edge', effect.flip⟩
  invariant j i r q b d named places datas := (same.invariant i j q r d b named places datas).symm
  committed j i r q named places := (same.committed i j q r named places).symm
  urgent j i r q named places := (same.urgent i j q r named places).symm
  elapse t b d datas := same.elapse t d b datas
  idle := same.idle'
  idle' := same.idle

/-! ## Participants -/

/-- A participant has a counterpart that can do the same. -/
theorem Matches.counterpart (same : K.Matches N M) (tied : K.Tied c c') {t : Participant I Q E D}
    (edge : N.edge t.owner (c.place t.owner) t.event t.effect) :
    ∃ u, K.Counterpart t u ∧ M.edge u.owner (c'.place u.owner) u.event u.effect := by
  rcases same.idle t.owner with ⟨j, named⟩ | idle
  · obtain ⟨f, y, event, edge', effect⟩ :=
      same.answer _ _ _ _ named (tied.places _ _ named) _ _ edge
    exact ⟨⟨j, f, y⟩, ⟨named, event, effect⟩, edge'⟩
  · exact absurd edge (idle.edge _ _ _)

theorem Matches.counterparts (same : K.Matches N M) (tied : K.Tied c c')
    (edges : ∀ t ∈ who, N.edge t.owner (c.place t.owner) t.event t.effect) :
    ∃ who', List.Forall₂ K.Counterpart who who' ∧
      ∀ u ∈ who', M.edge u.owner (c'.place u.owner) u.event u.effect := by
  induction who with
  | nil => exact ⟨[], .nil, by simp⟩
  | cons t rest ih =>
      obtain ⟨u, counterpart, edge⟩ := same.counterpart tied (edges t List.mem_cons_self)
      obtain ⟨us, counterparts, edges'⟩ := ih fun s member => edges s (List.mem_cons_of_mem _ member)
      exact ⟨u :: us, .cons counterpart counterparts, List.forall_mem_cons.mpr ⟨edge, edges'⟩⟩

/-- A component is ready for an event if its counterpart is. -/
theorem Matches.ready (same : K.Matches N M) (tied : K.Tied c c') {i : I} {j : J} {e : E}
    (named : K.names i j) (ready : N.Ready c i e) : ∃ f, K.events e f ∧ M.Ready c' j f := by
  obtain ⟨x, edge, holds⟩ := ready
  obtain ⟨f, y, event, edge', effect⟩ := same.answer _ _ _ _ named (tied.places _ _ named) _ _ edge
  exact ⟨f, event, y, edge', (effect.guard _ _ tied.datas).mp holds⟩

theorem rel_perform (counterparts : List.Forall₂ K.Counterpart who who') {x : D} {y : B}
    (related : K.datas x y) : Option.Rel K.datas (perform who x) (perform who' y) := by
  induction counterparts generalizing x y with
  | nil => exact .some related
  | cons first _ ih =>
      exact rel_andThen (first.effect.update x y related) fun _ _ later => ih later

/-- The places of a joint move are those its participants arrive at. -/
theorem exists_places (distinct : (who'.map Participant.owner).Nodup) (before : J → P) :
    ∃ after : J → P, (∀ u ∈ who', after u.owner = u.effect.target) ∧
      ∀ j, (∀ u ∈ who', u.owner ≠ j) → after j = before j := by
  classical
  refine ⟨fun j => if moves : ∃ u ∈ who', u.owner = j then moves.choose.effect.target else before j,
    ?_, ?_⟩
  · intro u member
    have moves : ∃ u' ∈ who', u'.owner = u.owner := ⟨u, member, rfl⟩
    obtain ⟨member', owner⟩ := moves.choose_spec
    dsimp only
    rw [dif_pos moves, List.inj_on_of_nodup_map distinct member' member owner]
  · intro j absent
    exact dif_neg fun ⟨u, member, owner⟩ => absent u member owner

/-- What the participants of one network do, their counterparts do in the other. -/
theorem Matches.fires (same : K.Matches N M) (tied : K.Tied c c')
    (counterparts : List.Forall₂ K.Counterpart who who')
    (edges : ∀ u ∈ who', M.edge u.owner (c'.place u.owner) u.event u.effect)
    (fires : N.Fires who c d) : ∃ d', M.Fires who' c' d' ∧ K.Tied d d' := by
  have back : ∀ u ∈ who', ∃ t ∈ who, K.Counterpart t u := by
    intro u member
    obtain ⟨k, inside, rfl⟩ := List.getElem_of_mem member
    have other : k < who.length := by rwa [counterparts.length_eq]
    exact ⟨who[k], List.getElem_mem other, counterparts.get other inside⟩
  have forth : ∀ t ∈ who, ∃ u ∈ who', K.Counterpart t u := by
    intro t member
    obtain ⟨k, inside, rfl⟩ := List.getElem_of_mem member
    have other : k < who'.length := by rwa [← counterparts.length_eq]
    exact ⟨who'[k], List.getElem_mem other, counterparts.get inside other⟩
  have distinct : (who'.map Participant.owner).Nodup := by
    have owners : List.Forall₂ K.names (who.map Participant.owner) (who'.map Participant.owner) := by
      rw [List.forall₂_map_left_iff, List.forall₂_map_right_iff]
      exact counterparts.imp fun _ _ counterpart => counterpart.owner
    refine (List.rel_nodup ⟨?_, ?_⟩ owners).mp fires.distinct
    · exact fun i i' j first second => same.oneOwner i i' j first second
    · exact fun i j j' first second => same.oneName i j j' first second
  obtain ⟨after, arrives, stays⟩ := exists_places distinct c'.place
  have performed := rel_perform counterparts tied.datas
  rw [fires.performed] at performed
  generalize outcome : perform who' c'.data = result at performed
  cases performed with
  | some datas =>
  rename_i y
  have places : ∀ i j, K.names i j → K.places i j (d.place i) (after j) := by
    intro i j named
    by_cases moves : ∃ t ∈ who, t.owner = i
    · obtain ⟨t, member, rfl⟩ := moves
      obtain ⟨u, member', counterpart⟩ := forth t member
      rw [same.oneName _ _ _ named counterpart.owner, arrives u member', fires.arrives t member]
      exact counterpart.effect.target
    · rw [fires.stays i fun t member owner => moves ⟨t, member, owner⟩, stays j]
      · exact tied.places i j named
      · rintro u member' rfl
        obtain ⟨t, member, counterpart⟩ := back u member'
        exact moves ⟨t, member, same.oneOwner _ _ _ counterpart.owner named⟩
  refine ⟨⟨after, y⟩, ⟨distinct, edges, ?_, ?_, outcome, arrives, stays, ?_⟩, places, datas⟩
  · intro u member'
    obtain ⟨t, member, counterpart⟩ := back u member'
    exact (counterpart.effect.guard _ _ tied.datas).mp (fires.guards t member)
  · rintro ⟨j, committed⟩
    rcases same.idle' j with ⟨i, named⟩ | idle
    · obtain ⟨t, member, leaves⟩ := fires.commits
        ⟨i, (same.committed _ _ _ _ named (tied.places _ _ named)).mpr committed⟩
      obtain ⟨u, member', counterpart⟩ := forth t member
      exact ⟨u, member', (same.committed _ _ _ _ counterpart.owner
        (tied.places _ _ counterpart.owner)).mp leaves⟩
    · exact absurd committed (idle.committed _)
  · intro j
    rcases same.idle' j with ⟨i, named⟩ | idle
    · exact (same.invariant _ _ _ _ _ _ named (places i j named) datas).mp (fires.invariants i)
    · exact idle.invariant _ _

/-- Time passes in both networks alike. -/
theorem Matches.elapses [LE T] (same : K.Matches N M) (tied : K.Tied c c') {t : T}
    (calm : M.hurried (M.Ready c') → N.hurried (N.Ready c)) (elapses : N.Elapses t c d) :
    ∃ d', M.Elapses t c' d' ∧ K.Tied d d' := by
  refine ⟨⟨c'.place, M.elapse t c'.data⟩, ⟨rfl, rfl, ?_, fun hurried => elapses.calm (calm hurried), ?_⟩,
    ?_, ?_⟩
  · intro j
    rcases same.idle' j with ⟨i, named⟩ | idle
    · rw [← same.committed _ _ _ _ named (tied.places _ _ named),
        ← same.urgent _ _ _ _ named (tied.places _ _ named)]
      exact elapses.free i
    · exact ⟨idle.committed _, idle.urgent _⟩
  · intro t' before j
    rcases same.idle' j with ⟨i, named⟩ | idle
    · exact (same.invariant _ _ _ _ _ _ named (tied.places _ _ named)
        (same.elapse t' _ _ tied.datas)).mp (elapses.invariants t' before i)
    · exact idle.invariant _ _
  · intro i j named
    rw [elapses.place]
    exact tied.places i j named
  · rw [elapses.data]
    exact same.elapse t _ _ tied.datas

/-! ## The systems of two networks -/

theorem labels_of_counterparts (counterparts : List.Forall₂ K.Counterpart who who') :
    List.Forall₂ K.Label (who.map Participant.label) (who'.map Participant.label) := by
  rw [List.forall₂_map_left_iff, List.forall₂_map_right_iff]
  exact counterparts.imp fun _ _ counterpart => ⟨counterpart.owner, counterpart.event⟩

theorem ready_of_fires (fires : N.Fires who c d) :
    (∀ a ∈ who.map Participant.label, N.Ready c a.1 a.2) ∧
      ((who.map Participant.label).map Prod.fst).Nodup := by
  constructor
  · intro a listed
    obtain ⟨t, member, rfl⟩ := List.mem_map.mp listed
    exact ⟨t.effect, fires.edges t member, fires.guards t member⟩
  · rw [List.map_map]
    exact fires.distinct

/-- A network whose rule follows that of another one with corresponding components
simulates it, provided the order of the updates does not matter in that one. -/
theorem Matches.simulates [LE T] (same : K.Matches N M) (follows : K.Follows N M) (commuting : N.Commuting)
    {start : Configuration I Q D → Prop} {start' : Configuration J P B → Prop}
    (starts : ∀ c, start c → ∃ c', start' c' ∧ K.Tied c c') :
    Simulates (N.system start) (M.system start') K.Tied K.Moves := by
  refine ⟨starts, ?_⟩
  intro c c' m d tied step
  cases step with
  | @joint _ who allowed fires =>
      obtain ⟨ready, nodup⟩ := ready_of_fires fires
      obtain ⟨l₂, l', perm, labels, allowed'⟩ := follows.forward c c' _ tied allowed ready nodup
      obtain ⟨who₂, perm', rfl⟩ := exists_perm_of_labels perm
      have fires₂ := commuting.fires allowed fires perm'
      obtain ⟨who', counterparts, edges⟩ := same.counterparts tied fires₂.edges
      obtain ⟨d', fires', tied'⟩ := same.fires tied counterparts edges fires₂
      have exact : who'.map Participant.label = l' :=
        List.right_unique_forall₂' (fun a b b' first second => Prod.ext
          (same.oneName _ _ _ first.1 second.1) (same.oneEvent _ _ _ first.2 second.2))
          (labels_of_counterparts counterparts) labels
      subst exact
      exact ⟨_, d', .joint perm labels, .joint allowed' fires', tied'⟩
  | delay elapses =>
      obtain ⟨d', elapses', tied'⟩ := same.elapses tied (follows.calm c c' tied) elapses
      exact ⟨_, d', .delay, .delay elapses', tied'⟩

/-- Networks whose components and rules correspond are bisimilar, provided the order
of the updates does not matter in the first one. -/
theorem Matches.bisimulates [LE T] (same : K.Matches N M) (rule : K.SameRule N M)
    (commuting : N.Commuting) {start : Configuration I Q D → Prop} {start' : Configuration J P B → Prop}
    (starts : ∀ c, start c → ∃ c', start' c' ∧ K.Tied c c')
    (starts' : ∀ c', start' c' → ∃ c, start c ∧ K.Tied c c') :
    Bisimulates (N.system start) (M.system start') K.Tied K.Moves := by
  refine ⟨same.simulates rule.toFollows commuting starts, ⟨starts', ?_⟩⟩
  intro c' c m' d' tied step
  cases step with
  | @joint _ who' allowed fires =>
      obtain ⟨ready, nodup⟩ := ready_of_fires fires
      obtain ⟨l₂, l, labels, perm, allowed'⟩ := rule.backward c c' _ tied allowed ready nodup
      obtain ⟨who₂, counterparts, edges⟩ := same.flip.counterparts tied.flip fires.edges
      obtain ⟨d, fires₂, tied'⟩ := same.flip.fires tied.flip counterparts edges fires
      have exact : who₂.map Participant.label = l₂ :=
        List.right_unique_forall₂' (R := fun b a => K.Label a b)
          (fun b a a' first second => Prod.ext
            (same.oneOwner _ _ _ first.1 second.1) (same.oneSource _ _ _ first.2 second.2))
          (labels_of_counterparts counterparts) labels.flip
      subst exact
      obtain ⟨who, perm', rfl⟩ := exists_perm_of_labels perm
      have fires₁ : N.Fires who c d := by
        refine fires₂.perm perm' fun s member t member' differ => ?_
        have inside {x : Participant I Q E D} (member : x ∈ who₂) :
            (x.owner, x.event) ∈ who.map Participant.label :=
          List.mem_map_of_mem (perm'.mem_iff.mp member)
        exact commuting _ _ allowed' _ _ _ _ (inside member) (inside member') differ _ _ _ _
          (fires₂.edges s member) (fires₂.edges t member')
      exact ⟨_, d, .joint perm.symm labels, .joint allowed' fires₁, tied'.flip⟩
  | delay elapses =>
      obtain ⟨d, elapses', tied'⟩ := same.flip.elapses tied.flip (rule.calm' c c' tied) elapses
      exact ⟨_, d, .delay, .delay elapses', tied'.flip⟩

/-- Of corresponding configurations both are deadlocked, or none. -/
theorem deadlocked_iff [LE T] {start : Configuration I Q D → Prop} {start' : Configuration J P B → Prop}
    (both : Bisimulates (N.system start) (M.system start') K.Tied K.Moves) (tied : K.Tied c c') :
    N.Deadlocked start c ↔ M.Deadlocked start' c' := by
  have alike {l : Move I E T} {m : Move J F T} (moves : K.Moves l m) : l.Joint ↔ m.Joint := by
    cases moves with
    | joint => exact Iff.rfl
    | delay => exact Iff.rfl
  exact both.deadlocked_iff (fun _ _ moves => not_congr (alike moves)) (fun _ _ moves => alike moves) tied

end Dictionary

end

end Utot.Library
