import Utot.Library.Counting
import Utot.Sync.Csp
import Utot.Tchecker.Moves

/-!
# Handshakes

A channel that is not broadcast synchronises one emitter with one other
process that receives.  The generator erases the receivers of a label as soon as
one emitter found a partner; this module says exactly when that loses a
receiver.
-/

namespace Utot

open Library Tchecker

/-- The vectors the channel loops write from a state. -/
def channelLines (st : TrState) : List SyncVector :=
  ((exec sGenerateChannelVectors { st with addStuckProcess := true }).2.vectors).drop
    st.vectors.length

/-- The vectors written for a label. -/
def linesFor (st : TrState) (s : String) : List SyncVector :=
  (channelLines st).filter (concerns s)

/-- A run that returned wrote the vectors of every label. -/
theorem linesFor_eq {st st' : TrState} (run : exec sGenerateSyncVectors st = (.ok (), st'))
    (s : String) : linesFor st s = labelVectors st.events s := by
  have spec := @sGenerateChannelVectors_spec st.vectors st.events
    { st with addStuckProcess := true } ⟨rfl, rfl⟩
  change exec (modify _ >>= fun _ => sGenerateChannelVectors >>= fun _ => sGenerateCspVectors) st = _
    at run
  rw [exec_bind_ok (exec_modify _ _), exec_bind] at run
  rcases outcome : exec sGenerateChannelVectors { st with addStuckProcess := true }
    with ⟨_ | _, middle⟩
  · rw [outcome] at run
    cases run
  · rw [outcome] at spec
    obtain ⟨added, after, _, own, written, _⟩ := spec
    rw [linesFor, channelLines, outcome, written, List.drop_left]
    exact own s

/-- The edges on a channel: emissions of `emitters`, receptions of `receivers`. -/
def channelEdges (emitters receivers : ProcSet) (s : String) : Edges :=
  { a | a.1 ∈ emitters ∧ a.2 = emitEvent s ∨ a.1 ∈ receivers ∧ a.2 = recvEvent s }

/-- The two elements of the vector of an emitter and a receiver. -/
abbrev pairElements (s pe pr : String) : SyncVector :=
  [⟨pe, emitEvent s, false⟩, ⟨pr, recvEvent s, false⟩]

/-- What the vectors of a label must be for the channel to be a handshake. -/
structure BinaryExact (emitters receivers : ProcSet) (s : String) (lines : List SyncVector) :
    Prop where
  /-- A vector without `Stuck` joins an emitter and another process that receives. -/
  joins : ∀ v ∈ lines, (∀ x ∈ v, x.process ≠ stuckProcess) →
    ∃ pe ∈ emitters, ∃ pr ∈ receivers, pe ≠ pr ∧
      v.Perm (pairElements s pe pr)
  /-- Each of these pairs has one line. -/
  once : ∀ pe ∈ emitters, ∀ pr ∈ receivers, pe ≠ pr →
    lines.countP (fun v => v.Perm (pairElements s pe pr)) = 1
  emitted : ∀ pe ∈ emitters, ∃ v ∈ lines, ⟨pe, emitEvent s, false⟩ ∈ v
  received : ∀ pr ∈ receivers, ∃ v ∈ lines, ⟨pr, recvEvent s, false⟩ ∈ v
  /-- An emission or a reception without a partner is paired with `Stuck`. -/
  emitterBlocked : ∀ pe ∈ emitters, (∀ pr ∈ receivers, pe = pr) →
    ∃ v ∈ lines, v.Perm [⟨pe, emitEvent s, false⟩, ⟨stuckProcess, noSyncEvent, false⟩]
  receiverBlocked : ∀ pr ∈ receivers, (∀ pe ∈ emitters, pe = pr) →
    ∃ v ∈ lines, v.Perm [⟨pr, recvEvent s, false⟩, ⟨stuckProcess, noSyncEvent, false⟩]
  /-- The joint moves are those of Uppaal. -/
  moves : ∀ who : Edges, JointMove lines (channelEdges emitters receivers s) who ↔
    ∃ pe ∈ emitters, ∃ pr ∈ receivers, pe ≠ pr ∧ who = {(pe, emitEvent s), (pr, recvEvent s)}
  neverAlone : ∀ a ∈ channelEdges emitters receivers s, ¬ Asynchronous lines a.1 a.2

/-- One process is the only emitter of a channel that others receive too, and
receives it itself. -/
def SoleEmitterReceives (emitters receivers : ProcSet) : Prop :=
  ∃ p, (∀ q, q ∈ emitters ↔ q = p) ∧ p ∈ receivers ∧ ∃ q ∈ receivers, q ≠ p

/-! ## The lines of one label -/

section Lines

variable {s : String} {emitters receivers : ProcSet}

/-- The vectors of a label that is not broadcast. -/
def binaryLines (s : String) (emitters receivers : ProcSet) : List SyncVector :=
  binaryVectors s emitters.toList receivers.toList ++
    if synchronised emitters.toList receivers.toList then []
    else receivers.toList.map fun pr => blockedVector pr (recvEvent s)

theorem labelVectors_of_plain {events : GlobalEvents} (plain : s ∉ events.brodcasts) :
    labelVectors events s =
      binaryLines s (events.emitters.procs s) (events.receivers.procs s) := by
  rw [labelVectors, channelVectors, if_neg plain, binaryLines]

theorem synchronised_iff :
    synchronised emitters.toList receivers.toList = true ↔
      ∃ pe ∈ emitters, ∃ pr ∈ receivers, pe ≠ pr := by
  simp [synchronised, hasPartner_iff]

/-- The vectors of the receivers that are left. -/
theorem mem_blockedReceivers {v : SyncVector} :
    (v ∈ if synchronised emitters.toList receivers.toList then []
      else receivers.toList.map fun pr => blockedVector pr (recvEvent s)) ↔
      (∀ pe ∈ emitters, ∀ pr ∈ receivers, pe = pr) ∧
        ∃ pr ∈ receivers, v = blockedVector pr (recvEvent s) := by
  by_cases paired : ∃ pe ∈ emitters, ∃ pr ∈ receivers, pe ≠ pr
  · rw [if_pos (synchronised_iff.mpr paired)]
    obtain ⟨pe, sends, pr, receives, differ⟩ := paired
    constructor
    · intro member
      cases member
    · rintro ⟨equal, _⟩
      exact absurd (equal pe sends pr receives) differ
  · rw [if_neg (fun found => paired (synchronised_iff.mp found)), List.mem_map]
    have equal : ∀ pe ∈ emitters, ∀ pr ∈ receivers, pe = pr := by
      intro pe sends pr receives
      by_contra differ
      exact paired ⟨pe, sends, pr, receives, differ⟩
    constructor
    · rintro ⟨pr, listed, same⟩
      exact ⟨equal, pr, Std.TreeSet.mem_toList.mp listed, same.symm⟩
    · rintro ⟨_, pr, receives, same⟩
      exact ⟨pr, Std.TreeSet.mem_toList.mpr receives, same.symm⟩

/-- The three ways a vector is written. -/
theorem mem_binaryLines {v : SyncVector} :
    v ∈ binaryLines s emitters receivers ↔
      (∃ pe ∈ emitters, ∃ pr ∈ receivers, pe ≠ pr ∧
        v = pairVector pe (emitEvent s) pr (recvEvent s)) ∨
      (∃ pe ∈ emitters, (∀ pr ∈ receivers, pe = pr) ∧ v = blockedVector pe (emitEvent s)) ∨
      ((∀ pe ∈ emitters, ∀ pr ∈ receivers, pe = pr) ∧
        ∃ pr ∈ receivers, v = blockedVector pr (recvEvent s)) := by
  have alone : ∀ pe, hasPartner pe receivers.toList = false ↔ ∀ pr ∈ receivers, pe = pr := by
    intro pe
    rw [← Bool.not_eq_true, hasPartner_iff]
    simp
  have emitterPart : v ∈ binaryVectors s emitters.toList receivers.toList ↔
      (∃ pe ∈ emitters, ∃ pr ∈ receivers, pe ≠ pr ∧
        v = pairVector pe (emitEvent s) pr (recvEvent s)) ∨
      (∃ pe ∈ emitters, (∀ pr ∈ receivers, pe = pr) ∧ v = blockedVector pe (emitEvent s)) := by
    rw [binaryVectors, List.mem_flatMap]
    constructor
    · rintro ⟨pe, listed, member⟩
      have sends := Std.TreeSet.mem_toList.mp listed
      cases partner : hasPartner pe receivers.toList with
      | true =>
          rw [if_pos partner] at member
          obtain ⟨pr, kept, same⟩ := List.mem_map.mp member
          obtain ⟨listed, differ⟩ := List.mem_filter.mp kept
          exact .inl ⟨pe, sends, pr, Std.TreeSet.mem_toList.mp listed, by simpa using differ,
            same.symm⟩
      | false =>
          rw [partner, if_neg Bool.false_ne_true, List.mem_singleton] at member
          exact .inr ⟨pe, sends, (alone pe).mp partner, member⟩
    · rintro (⟨pe, sends, pr, receives, differ, same⟩ | ⟨pe, sends, none, same⟩)
      · have partner : hasPartner pe receivers.toList = true :=
          hasPartner_iff.mpr ⟨pr, Std.TreeSet.mem_toList.mpr receives, differ⟩
        refine ⟨pe, Std.TreeSet.mem_toList.mpr sends, ?_⟩
        rw [if_pos partner]
        refine List.mem_map.mpr ⟨pr, List.mem_filter.mpr ⟨Std.TreeSet.mem_toList.mpr receives, ?_⟩,
          same.symm⟩
        simpa using differ
      · refine ⟨pe, Std.TreeSet.mem_toList.mpr sends, ?_⟩
        rw [(alone pe).mpr none, if_neg Bool.false_ne_true, List.mem_singleton]
        exact same
  rw [binaryLines, List.mem_append, emitterPart, mem_blockedReceivers, or_assoc]

theorem mem_blockedVector {p e : String} (model : p ≠ stuckProcess) {x : SyncElement} :
    x ∈ blockedVector p e ↔ x = ⟨p, e, false⟩ ∨ x = ⟨stuckProcess, noSyncEvent, false⟩ :=
  mem_pairVector model

theorem pairVector_perm_iff {p q p' q' : String} (differ : p ≠ q) :
    (pairVector p (emitEvent s) q (recvEvent s)).Perm (pairElements s p' q') ↔
      p = p' ∧ q = q' := by
  constructor
  · intro same
    have sender : (⟨p', emitEvent s, false⟩ : SyncElement) ∈
        pairVector p (emitEvent s) q (recvEvent s) := same.mem_iff.mpr (by simp)
    have receiver : (⟨q', recvEvent s, false⟩ : SyncElement) ∈
        pairVector p (emitEvent s) q (recvEvent s) := same.mem_iff.mpr (by simp)
    rw [mem_pairVector differ, SyncElement.mk.injEq, SyncElement.mk.injEq] at sender receiver
    constructor
    · rcases sender with ⟨equal, _⟩ | ⟨_, clash, _⟩
      · exact equal.symm
      · exact absurd clash (emitEvent_ne_recvEvent s s)
    · rcases receiver with ⟨_, clash, _⟩ | ⟨equal, _⟩
      · exact absurd clash.symm (emitEvent_ne_recvEvent s s)
      · exact equal.symm
  · rintro ⟨rfl, rfl⟩
    exact pairVector_perm _ _ differ

theorem blockedEmit_not_pair {p p' q' : String} :
    ¬ (blockedVector p (emitEvent s)).Perm (pairElements s p' q') := by
  intro same
  have receiver : (⟨q', recvEvent s, false⟩ : SyncElement) ∈ blockedVector p (emitEvent s) :=
    same.mem_iff.mpr (by simp)
  rcases event_of_mem_pairVector receiver with clash | clash
  · exact emitEvent_ne_recvEvent s s clash.symm
  · exact recvEvent_ne_noSync s clash

/-- The vectors of one emitter contain a pair once if it is a pair of that emitter. -/
theorem count_pairVectors (pe p q : String) {procs : List String} (distinct : procs.Nodup) :
    (pairVectors s pe procs).countP (fun v => v.Perm (pairElements s p q)) =
      if pe = p ∧ q ∈ procs ∧ pe ≠ q then 1 else 0 := by
  rw [pairVectors, List.countP_map]
  have agree : ∀ pr ∈ procs.filter (pe ≠ ·),
      ((fun v : SyncVector => decide (v.Perm (pairElements s p q))) ∘
        fun pr => pairVector pe (emitEvent s) pr (recvEvent s)) pr = true ↔
      (decide (pe = p) && pr == q) = true := by
    intro pr kept
    have differ : pe ≠ pr := by simpa using (List.mem_filter.mp kept).2
    simp [pairVector_perm_iff differ]
  rw [List.countP_congr agree]
  by_cases own : pe = p
  · have counted : (procs.filter (pe ≠ ·)).countP (fun pr => decide (pe = p) && pr == q) =
        (procs.filter (pe ≠ ·)).count q := by
      simp [own, List.count]
    rw [counted, (distinct.filter _).count]
    simp [own]
  · simp [own]

theorem binaryLines_once {pe pr : String} (sends : pe ∈ emitters) (receives : pr ∈ receivers)
    (differ : pe ≠ pr) :
    (binaryLines s emitters receivers).countP (fun v => v.Perm (pairElements s pe pr)) = 1 := by
  have partner : hasPartner pe receivers.toList = true :=
    hasPartner_iff.mpr ⟨pr, Std.TreeSet.mem_toList.mpr receives, differ⟩
  have distinct := procSet_toList_nodup receivers
  have blocked : (if synchronised emitters.toList receivers.toList then []
      else receivers.toList.map fun pr => blockedVector pr (recvEvent s)).countP
      (fun v => v.Perm (pairElements s pe pr)) = 0 := by
    rw [if_pos (synchronised_iff.mpr ⟨pe, sends, pr, receives, differ⟩)]
    rfl
  rw [binaryLines, List.countP_append, blocked, Nat.add_zero, binaryVectors,
    countP_flatMap_of_mem (procSet_toList_nodup emitters) (Std.TreeSet.mem_toList.mpr sends),
    if_pos partner, count_pairVectors pe pe pr distinct]
  · simp [differ, receives]
  · intro other _ away
    split
    · simp [count_pairVectors other pe pr distinct, away]
    · simp [blockedEmit_not_pair]

theorem binaryLines_joins {v : SyncVector} (member : v ∈ binaryLines s emitters receivers)
    (models : ∀ x ∈ v, x.process ≠ stuckProcess) :
    ∃ pe ∈ emitters, ∃ pr ∈ receivers, pe ≠ pr ∧ v.Perm (pairElements s pe pr) := by
  have noBlocked : ∀ p e, p ≠ stuckProcess → v ≠ blockedVector p e := by
    intro p e model same
    have stuck : ⟨stuckProcess, noSyncEvent, false⟩ ∈ v := by
      rw [same]
      exact (mem_blockedVector model).mpr (.inr rfl)
    exact models _ stuck rfl
  have noSelf : ∀ p e, v = blockedVector p e → p ≠ stuckProcess := by
    rintro p e same rfl
    have first : ⟨stuckProcess, e, false⟩ ∈ v := by
      rw [same]
      exact first_mem_pairVector _ _ _ _
    exact models _ first rfl
  rcases mem_binaryLines.mp member with ⟨pe, sends, pr, receives, differ, same⟩ | ⟨pe, _, _, same⟩ |
    ⟨_, pr, _, same⟩
  · exact ⟨pe, sends, pr, receives, differ, same ▸ pairVector_perm _ _ differ⟩
  · exact absurd same (noBlocked _ _ (noSelf _ _ same))
  · exact absurd same (noBlocked _ _ (noSelf _ _ same))

theorem binaryLines_emitted {pe : String} (sends : pe ∈ emitters) :
    ∃ v ∈ binaryLines s emitters receivers, ⟨pe, emitEvent s, false⟩ ∈ v := by
  by_cases partner : ∃ pr ∈ receivers, pe ≠ pr
  · obtain ⟨pr, receives, differ⟩ := partner
    exact ⟨_, mem_binaryLines.mpr (.inl ⟨pe, sends, pr, receives, differ, rfl⟩),
      first_mem_pairVector _ _ _ _⟩
  · push Not at partner
    exact ⟨_, mem_binaryLines.mpr (.inr (.inl ⟨pe, sends, partner, rfl⟩)),
      first_mem_pairVector _ _ _ _⟩

/-- The joint moves are right whether or not a reception got lost. -/
theorem binaryLines_moves (models : stuckProcess ∉ emitters) (models' : stuckProcess ∉ receivers)
    (who : Edges) :
    JointMove (binaryLines s emitters receivers) (channelEdges emitters receivers s) who ↔
      ∃ pe ∈ emitters, ∃ pr ∈ receivers, pe ≠ pr ∧
        who = {(pe, emitEvent s), (pr, recvEvent s)} := by
  have noStuck : (stuckProcess, noSyncEvent) ∉ channelEdges emitters receivers s := by
    rintro (⟨_, clash⟩ | ⟨_, clash⟩)
    · exact emitEvent_ne_noSync s clash.symm
    · exact recvEvent_ne_noSync s clash.symm
  have noBlocked : ∀ p e, p ≠ stuckProcess →
      ¬ MovesAlong (blockedVector p e) (channelEdges emitters receivers s) who := by
    intro p e model moves
    have stuck : ⟨stuckProcess, noSyncEvent, false⟩ ∈ blockedVector p e :=
      (mem_blockedVector model).mpr (.inr rfl)
    exact noStuck (moves.enabled (moves.strong _ stuck rfl))
  have pair : ∀ pe pr, pe ≠ pr →
      (MovesAlong (pairVector pe (emitEvent s) pr (recvEvent s))
        (channelEdges emitters receivers s) who ↔
        who = {(pe, emitEvent s), (pr, recvEvent s)} ∧
          (pe, emitEvent s) ∈ channelEdges emitters receivers s ∧
          (pr, recvEvent s) ∈ channelEdges emitters receivers s) := by
    intro pe pr differ
    rw [movesAlong_strong_iff (by
      intro x member
      rcases (mem_pairVector differ).mp member with rfl | rfl <;> rfl)]
    have participants : { a | ∃ x ∈ pairVector pe (emitEvent s) pr (recvEvent s),
        (x.process, x.event) = a } = ({(pe, emitEvent s), (pr, recvEvent s)} : Edges) := by
      ext a
      simp only [mem_pairVector differ, Set.mem_ofPred_eq, exists_eq_or_imp, exists_eq_left,
        eq_comm (b := a)]
      exact Iff.rfl
    rw [participants]
    simp [mem_pairVector differ]
  constructor
  · rintro ⟨v, member, moves⟩
    rcases mem_binaryLines.mp member with ⟨pe, sends, pr, receives, differ, rfl⟩ |
      ⟨pe, sends, _, rfl⟩ | ⟨_, pr, receives, rfl⟩
    · exact ⟨pe, sends, pr, receives, differ, ((pair pe pr differ).mp moves).1⟩
    · exact absurd moves (noBlocked _ _ (ne_of_mem_of_not_mem sends models))
    · exact absurd moves (noBlocked _ _ (ne_of_mem_of_not_mem receives models'))
  · rintro ⟨pe, sends, pr, receives, differ, same⟩
    exact ⟨_, mem_binaryLines.mpr (.inl ⟨pe, sends, pr, receives, differ, rfl⟩),
      (pair pe pr differ).mpr ⟨same, .inl ⟨sends, rfl⟩, .inr ⟨receives, rfl⟩⟩⟩

/-- A receiver without a partner is left over, unless its process is the only
emitter and the round of that emitter erased it. -/
theorem not_synchronised_of_alone (covered : ¬ SoleEmitterReceives emitters receivers)
    {pr : String} (receives : pr ∈ receivers) (alone : ∀ pe ∈ emitters, pe = pr) :
    ∀ pe ∈ emitters, ∀ pr' ∈ receivers, pe = pr' := by
  intro pe sends pr' receives'
  by_contra differ
  have same := alone pe sends
  subst same
  refine covered ⟨pe, fun q => ⟨alone q, fun equal => equal ▸ sends⟩, receives, pr', receives', ?_⟩
  exact Ne.symm differ

theorem binaryLines_receiverBlocked (covered : ¬ SoleEmitterReceives emitters receivers)
    {pr : String} (receives : pr ∈ receivers) (alone : ∀ pe ∈ emitters, pe = pr) :
    blockedVector pr (recvEvent s) ∈ binaryLines s emitters receivers :=
  mem_binaryLines.mpr (.inr (.inr
    ⟨not_synchronised_of_alone covered receives alone, pr, receives, rfl⟩))

theorem binaryLines_received (covered : ¬ SoleEmitterReceives emitters receivers)
    {pr : String} (receives : pr ∈ receivers) :
    ∃ v ∈ binaryLines s emitters receivers, ⟨pr, recvEvent s, false⟩ ∈ v := by
  by_cases partner : ∃ pe ∈ emitters, pe ≠ pr
  · obtain ⟨pe, sends, differ⟩ := partner
    exact ⟨_, mem_binaryLines.mpr (.inl ⟨pe, sends, pr, receives, differ, rfl⟩),
      (mem_pairVector differ).mpr (.inr rfl)⟩
  · push Not at partner
    exact ⟨_, binaryLines_receiverBlocked covered receives partner, first_mem_pairVector _ _ _ _⟩

/-- The reception of a sole emitter that others receive too is in no vector. -/
theorem binaryLines_lost {p : String} (sole : ∀ q, q ∈ emitters ↔ q = p)
    (shared : ∃ q ∈ receivers, q ≠ p) {v : SyncVector}
    (member : v ∈ binaryLines s emitters receivers) : ⟨p, recvEvent s, false⟩ ∉ v := by
  intro inside
  rcases mem_binaryLines.mp member with ⟨pe, sends, pr, _, differ, rfl⟩ | ⟨pe, _, _, rfl⟩ |
    ⟨equal, _⟩
  · rw [mem_pairVector differ, SyncElement.mk.injEq, SyncElement.mk.injEq] at inside
    rcases inside with ⟨_, clash, _⟩ | ⟨same, _⟩
    · exact emitEvent_ne_recvEvent s s clash.symm
    · exact differ (((sole pe).mp sends).trans same)
  · rcases event_of_mem_pairVector inside with clash | clash
    · exact emitEvent_ne_recvEvent s s clash.symm
    · exact recvEvent_ne_noSync s clash
  · obtain ⟨q, receives, differ⟩ := shared
    exact differ (equal p ((sole p).mpr rfl) q receives).symm

/-- The lines of a label are those of a handshake unless a reception is lost. -/
theorem binaryExact_binaryLines_iff (models : stuckProcess ∉ emitters)
    (models' : stuckProcess ∉ receivers) :
    BinaryExact emitters receivers s (binaryLines s emitters receivers) ↔
      ¬ SoleEmitterReceives emitters receivers := by
  constructor
  · rintro exact ⟨p, sole, receives, shared⟩
    obtain ⟨v, member, inside⟩ := exact.received p receives
    exact binaryLines_lost sole shared member inside
  · intro covered
    have received : ∀ pr ∈ receivers, ∃ v ∈ binaryLines s emitters receivers,
        ⟨pr, recvEvent s, false⟩ ∈ v := fun pr receives => binaryLines_received covered receives
    refine ⟨fun v member => binaryLines_joins member, fun pe sends pr receives differ =>
      binaryLines_once sends receives differ, fun pe sends => binaryLines_emitted sends, received,
      ?_, ?_, binaryLines_moves models models', ?_⟩
    · intro pe sends alone
      exact ⟨_, mem_binaryLines.mpr (.inr (.inl ⟨pe, sends, alone, rfl⟩)),
        pairVector_perm _ _ (ne_of_mem_of_not_mem sends models)⟩
    · intro pr receives alone
      exact ⟨_, binaryLines_receiverBlocked covered receives alone,
        pairVector_perm _ _ (ne_of_mem_of_not_mem receives models')⟩
    · rintro ⟨p, e⟩ (⟨sends, rfl⟩ | ⟨receives, rfl⟩) alone
      · obtain ⟨v, member, inside⟩ := @binaryLines_emitted s emitters receivers _ sends
        exact alone v member _ inside rfl
      · obtain ⟨v, member, inside⟩ := received p receives
        exact alone v member _ inside rfl

end Lines

/-! ## The generation -/

/-- No process of the tables is called `Stuck`. -/
def NoStuck (events : GlobalEvents) : Prop := ¬ HasStuck events ∧ ¬ CspHasStuck events

/-- The tables of one channel. -/
def eventsOf (s : String) (emitters receivers : List String) (brodcasts : EventSet) :
    GlobalEvents :=
  { GlobalEvents.empty with
    emitters := ProcTable.empty.recordAll s emitters
    receivers := ProcTable.empty.recordAll s receivers
    brodcasts := brodcasts }

theorem mem_emitters_eventsOf {s label p : String} {emitters receivers : List String}
    {brodcasts : EventSet} :
    p ∈ (eventsOf s emitters receivers brodcasts).emitters.procs label ↔ s = label ∧ p ∈ emitters := by
  simp [eventsOf, ProcTable.mem_recordAll]

theorem mem_receivers_eventsOf {s label p : String} {emitters receivers : List String}
    {brodcasts : EventSet} :
    p ∈ (eventsOf s emitters receivers brodcasts).receivers.procs label ↔ s = label ∧ p ∈ receivers := by
  simp [eventsOf, ProcTable.mem_recordAll]

theorem noStuck_eventsOf {s : String} {emitters receivers : List String} {brodcasts : EventSet}
    (models : stuckProcess ∉ emitters) (models' : stuckProcess ∉ receivers) :
    NoStuck (eventsOf s emitters receivers brodcasts) := by
  constructor
  · rintro ⟨label, emits | receives⟩
    · exact models (mem_emitters_eventsOf.mp emits).2
    · exact models' (mem_receivers_eventsOf.mp receives).2
  · rintro ⟨label, shares⟩
    simp [eventsOf, GlobalEvents.empty] at shares

/-- A state in which nothing has been written. -/
def TrState.ofEvents (events : GlobalEvents) : TrState := { TrState.initial with events := events }

/-- The generation returns, and the lines it writes for a channel that is not
broadcast are those of a handshake unless the only emitter also receives and
others do too. -/
theorem handshake_exact_iff (st : TrState) (s : String) (plain : s ∉ st.events.brodcasts) :
    (NoStuck st.events → ∃ st', exec sGenerateSyncVectors st = (.ok (), st')) ∧
    ∀ st', exec sGenerateSyncVectors st = (.ok (), st') →
      stuckProcess ∉ st.events.emitters.procs s → stuckProcess ∉ st.events.receivers.procs s →
      (BinaryExact (st.events.emitters.procs s) (st.events.receivers.procs s) s (linesFor st s) ↔
        ¬ SoleEmitterReceives (st.events.emitters.procs s) (st.events.receivers.procs s)) := by
  constructor
  · rintro ⟨channels, csp⟩
    exact sGenerateSyncVectors_returns st channels csp
  · intro st' run models models'
    rw [linesFor_eq run, labelVectors_of_plain plain]
    exact binaryExact_binaryLines_iff models models'

/-- Two processes that both emit and receive a channel. -/
theorem handshake_exact_mutual :
    BinaryExact ((eventsOf "c" ["P", "Q"] ["P", "Q"] ∅).emitters.procs "c")
      ((eventsOf "c" ["P", "Q"] ["P", "Q"] ∅).receivers.procs "c") "c"
      (linesFor (.ofEvents (eventsOf "c" ["P", "Q"] ["P", "Q"] ∅)) "c") := by
  obtain ⟨returns, exact_iff⟩ := handshake_exact_iff
    (.ofEvents (eventsOf "c" ["P", "Q"] ["P", "Q"] ∅)) "c"
    (by simp [TrState.ofEvents, eventsOf, GlobalEvents.empty])
  obtain ⟨st', run⟩ := returns (noStuck_eventsOf (by decide) (by decide))
  refine (exact_iff st' run (fun member => ?_) fun member => ?_).mpr ?_
  · exact absurd (mem_emitters_eventsOf.mp member).2 (by decide)
  · exact absurd (mem_receivers_eventsOf.mp member).2 (by decide)
  · rintro ⟨p, sole, _⟩
    have first := (sole "P").mp (mem_emitters_eventsOf.mpr (by decide))
    have second := (sole "Q").mp (mem_emitters_eventsOf.mpr (by decide))
    exact absurd (first.trans second.symm) (by decide)

/-- `P` emits and receives a channel that `Q` receives too: the only line written
joins `P` and `Q`, and the reception of `P` is in no vector. -/
theorem handshake_overlap_loses_reception :
    (∃ st', exec sGenerateSyncVectors (.ofEvents (eventsOf "c" ["P"] ["P", "Q"] ∅)) = (.ok (), st')) ∧
    linesFor (.ofEvents (eventsOf "c" ["P"] ["P", "Q"] ∅)) "c" =
      [[⟨"P", "c_emit", false⟩, ⟨"Q", "c_recv", false⟩]] ∧
    ¬ BinaryExact ((eventsOf "c" ["P"] ["P", "Q"] ∅).emitters.procs "c")
      ((eventsOf "c" ["P"] ["P", "Q"] ∅).receivers.procs "c") "c"
      (linesFor (.ofEvents (eventsOf "c" ["P"] ["P", "Q"] ∅)) "c") ∧
    Asynchronous (linesFor (.ofEvents (eventsOf "c" ["P"] ["P", "Q"] ∅)) "c") "P" "c_recv" := by
  have lines : linesFor (.ofEvents (eventsOf "c" ["P"] ["P", "Q"] ∅)) "c" =
      [[⟨"P", "c_emit", false⟩, ⟨"Q", "c_recv", false⟩]] := by decide
  refine ⟨sGenerateSyncVectors_returns _ ?_ ?_, lines, fun exact => ?_, ?_⟩
  · exact (noStuck_eventsOf (by decide) (by decide)).1
  · exact (noStuck_eventsOf (by decide) (by decide)).2
  · obtain ⟨v, member, inside⟩ := exact.received "P" (mem_receivers_eventsOf.mpr (by decide))
    rw [lines, List.mem_singleton] at member
    subst member
    exact absurd inside (by decide)
  · rw [lines]
    decide

end Utot
