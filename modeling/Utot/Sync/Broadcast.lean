import Utot.Sync.Binary

/-!
# Broadcasts

An emitter of a broadcast channel takes along the other processes that receive,
and moves on its own when there are none.  The receivers are erased by the same
flag as those of a handshake, so the same receptions get lost.
-/

namespace Utot

open Library Tchecker

/-- The elements of the vector of an emitter: the receivers are weak. -/
def broadcastElements (s pe : String) (receivers : ProcSet) : SyncVector :=
  ⟨pe, emitEvent s, false⟩ ::
    (receivers.toList.filter (pe ≠ ·)).map fun pr => ⟨pr, recvEvent s, true⟩

/-- The vector mentions the emission of the process. -/
def emittedBy (s pe : String) (v : SyncVector) : Bool :=
  v.any fun x => x.process == pe && x.event == emitEvent s

theorem emittedBy_iff {s pe : String} {v : SyncVector} :
    emittedBy s pe v = true ↔ ∃ x ∈ v, x.process = pe ∧ x.event = emitEvent s := by
  simp [emittedBy]

/-- What the vectors of a label must be for the channel to be a broadcast. -/
structure BroadcastExact (emitters receivers : ProcSet) (s : String) (lines : List SyncVector) :
    Prop where
  /-- An emitter that others receive has one line, with them as its weak members. -/
  once : ∀ pe ∈ emitters, (∃ pr ∈ receivers, pe ≠ pr) → lines.countP (emittedBy s pe) = 1
  members : ∀ pe ∈ emitters, (∃ pr ∈ receivers, pe ≠ pr) →
    ∃ v ∈ lines, v.Perm (broadcastElements s pe receivers)
  /-- An emitter that no other process receives may fire alone. -/
  alone : ∀ pe ∈ emitters, (∀ pr ∈ receivers, pe = pr) → Asynchronous lines pe (emitEvent s)
  received : ∀ pr ∈ receivers, ∃ v ∈ lines, ∃ weak, ⟨pr, recvEvent s, weak⟩ ∈ v
  receiverBlocked : ∀ pr ∈ receivers, (∀ pe ∈ emitters, pe = pr) →
    ∃ v ∈ lines, v.Perm [⟨pr, recvEvent s, false⟩, ⟨stuckProcess, noSyncEvent, false⟩]
  /-- No reception is taken without an emission of another process. -/
  neverAlone : ∀ pr ∈ receivers, ¬ Asynchronous lines pr (recvEvent s)
  led : ∀ who : Edges, JointMove lines (channelEdges emitters receivers s) who →
    ∀ pr, (pr, recvEvent s) ∈ who → ∃ pe ∈ emitters, pe ≠ pr ∧ (pe, emitEvent s) ∈ who

section Lines

variable {s : String} {emitters receivers : ProcSet}

/-- The vectors of a label recorded as broadcast. -/
def broadcastLines (s : String) (emitters receivers : ProcSet) : List SyncVector :=
  broadcastVectors s emitters.toList receivers.toList ++
    if synchronised emitters.toList receivers.toList then []
    else receivers.toList.map fun pr => blockedVector pr (recvEvent s)

theorem labelVectors_of_broadcast {events : GlobalEvents} (broadcast : s ∈ events.brodcasts) :
    labelVectors events s =
      broadcastLines s (events.emitters.procs s) (events.receivers.procs s) := by
  rw [labelVectors, channelVectors, if_pos broadcast, broadcastLines]

/-- The vector of one emitter. -/
def broadcastVector (s pe : String) (receivers : ProcSet) : SyncVector :=
  elements (broadcastMap s pe receivers.toList)

theorem mem_broadcastVector {pe : String} {x : SyncElement} :
    x ∈ broadcastVector s pe receivers ↔
      x = ⟨pe, emitEvent s, false⟩ ∨ ∃ pr ∈ receivers, pe ≠ pr ∧ x = ⟨pr, recvEvent s, true⟩ := by
  rw [broadcastVector, mem_broadcastMap (procSet_toList_nodup receivers)]
  simp only [Std.TreeSet.mem_toList]

/-- The two ways a vector is written. -/
theorem mem_broadcastLines {v : SyncVector} :
    v ∈ broadcastLines s emitters receivers ↔
      (∃ pe ∈ emitters, (∃ pr ∈ receivers, pe ≠ pr) ∧ v = broadcastVector s pe receivers) ∨
      ((∀ pe ∈ emitters, ∀ pr ∈ receivers, pe = pr) ∧
        ∃ pr ∈ receivers, v = blockedVector pr (recvEvent s)) := by
  have emitterPart : v ∈ broadcastVectors s emitters.toList receivers.toList ↔
      ∃ pe ∈ emitters, (∃ pr ∈ receivers, pe ≠ pr) ∧ v = broadcastVector s pe receivers := by
    rw [broadcastVectors, List.mem_flatMap]
    constructor
    · rintro ⟨pe, listed, member⟩
      split at member
      · rename_i partner
        obtain ⟨pr, receives, differ⟩ := hasPartner_iff.mp partner
        exact ⟨pe, Std.TreeSet.mem_toList.mp listed,
          ⟨pr, Std.TreeSet.mem_toList.mp receives, differ⟩, List.mem_singleton.mp member⟩
      · cases member
    · rintro ⟨pe, sends, ⟨pr, receives, differ⟩, same⟩
      refine ⟨pe, Std.TreeSet.mem_toList.mpr sends, ?_⟩
      rw [if_pos (hasPartner_iff.mpr ⟨pr, Std.TreeSet.mem_toList.mpr receives, differ⟩), same]
      exact List.mem_singleton.mpr rfl
  rw [broadcastLines, List.mem_append, emitterPart, mem_blockedReceivers]

theorem broadcastLines_once {pe : String} (sends : pe ∈ emitters)
    (partner : ∃ pr ∈ receivers, pe ≠ pr) :
    (broadcastLines s emitters receivers).countP (emittedBy s pe) = 1 := by
  have partner' : hasPartner pe receivers.toList = true := by
    obtain ⟨pr, receives, differ⟩ := partner
    exact hasPartner_iff.mpr ⟨pr, Std.TreeSet.mem_toList.mpr receives, differ⟩
  have paired : ∃ pe ∈ emitters, ∃ pr ∈ receivers, pe ≠ pr := ⟨pe, sends, partner⟩
  rw [broadcastLines, if_pos (synchronised_iff.mpr paired), List.append_nil, broadcastVectors,
    countP_flatMap_of_mem (procSet_toList_nodup emitters) (Std.TreeSet.mem_toList.mpr sends),
    if_pos partner', List.countP_singleton, if_pos]
  · exact emittedBy_iff.mpr ⟨_, mem_broadcastVector.mpr (.inl rfl), rfl, rfl⟩
  · intro other _ away
    split
    · rw [List.countP_singleton, if_neg]
      intro emits
      obtain ⟨x, inside, process, event⟩ := emittedBy_iff.mp emits
      rcases mem_broadcastVector.mp inside with rfl | ⟨pr, _, _, rfl⟩
      · exact away process
      · exact emitEvent_ne_recvEvent s s event.symm
    · rfl

theorem broadcastLines_alone {pe : String} (none : ∀ pr ∈ receivers, pe = pr) :
    Asynchronous (broadcastLines s emitters receivers) pe (emitEvent s) := by
  intro v member x inside same
  obtain ⟨process, event⟩ := Prod.mk.inj same
  rcases mem_broadcastLines.mp member with ⟨other, _, ⟨pr, receives, differ⟩, rfl⟩ |
    ⟨_, pr, _, rfl⟩
  · rcases mem_broadcastVector.mp inside with rfl | ⟨pr', _, _, rfl⟩
    · exact differ (process.trans (none pr receives))
    · exact emitEvent_ne_recvEvent s s event.symm
  · rcases event_of_mem_pairVector inside with clash | clash
    · exact emitEvent_ne_recvEvent s s (event.symm.trans clash)
    · exact emitEvent_ne_noSync s (event.symm.trans clash)

theorem broadcastLines_receiverBlocked (covered : ¬ SoleEmitterReceives emitters receivers)
    {pr : String} (receives : pr ∈ receivers) (alone : ∀ pe ∈ emitters, pe = pr) :
    blockedVector pr (recvEvent s) ∈ broadcastLines s emitters receivers :=
  mem_broadcastLines.mpr (.inr ⟨not_synchronised_of_alone covered receives alone, pr, receives, rfl⟩)

theorem broadcastLines_received (covered : ¬ SoleEmitterReceives emitters receivers)
    {pr : String} (receives : pr ∈ receivers) :
    ∃ v ∈ broadcastLines s emitters receivers, ∃ weak, ⟨pr, recvEvent s, weak⟩ ∈ v := by
  by_cases partner : ∃ pe ∈ emitters, pe ≠ pr
  · obtain ⟨pe, sends, differ⟩ := partner
    exact ⟨_, mem_broadcastLines.mpr (.inl ⟨pe, sends, ⟨pr, receives, differ⟩, rfl⟩), true,
      mem_broadcastVector.mpr (.inr ⟨pr, receives, differ, rfl⟩)⟩
  · push Not at partner
    exact ⟨_, broadcastLines_receiverBlocked covered receives partner, false,
      first_mem_pairVector _ _ _ _⟩

/-- A move on the channel contains the emission its receptions answer. -/
theorem broadcastLines_led (models : stuckProcess ∉ receivers) {who : Edges}
    (move : JointMove (broadcastLines s emitters receivers) (channelEdges emitters receivers s) who)
    {pr : String} (takes : (pr, recvEvent s) ∈ who) :
    ∃ pe ∈ emitters, pe ≠ pr ∧ (pe, emitEvent s) ∈ who := by
  obtain ⟨v, member, moves⟩ := move
  obtain ⟨x, inside, same⟩ := moves.inside _ takes
  obtain ⟨process, event⟩ := Prod.mk.inj same
  rcases mem_broadcastLines.mp member with ⟨pe, sends, _, rfl⟩ | ⟨_, other, receives, rfl⟩
  · have leads := moves.strong _ (mem_broadcastVector.mpr (.inl rfl)) rfl
    refine ⟨pe, sends, ?_, leads⟩
    rcases mem_broadcastVector.mp inside with rfl | ⟨q, _, differ, rfl⟩
    · exact absurd event (emitEvent_ne_recvEvent s s)
    · exact fun equal => differ (equal.trans process.symm)
  · have stuck : ⟨stuckProcess, noSyncEvent, false⟩ ∈ blockedVector other (recvEvent s) :=
      (mem_blockedVector (ne_of_mem_of_not_mem receives models)).mpr (.inr rfl)
    rcases moves.enabled (moves.strong _ stuck rfl) with ⟨_, clash⟩ | ⟨_, clash⟩
    · exact absurd clash.symm (emitEvent_ne_noSync s)
    · exact absurd clash.symm (recvEvent_ne_noSync s)

theorem broadcastLines_lost {p : String} (sole : ∀ q, q ∈ emitters ↔ q = p)
    (shared : ∃ q ∈ receivers, q ≠ p) {v : SyncVector}
    (member : v ∈ broadcastLines s emitters receivers) (weak : Bool) :
    ⟨p, recvEvent s, weak⟩ ∉ v := by
  intro inside
  rcases mem_broadcastLines.mp member with ⟨pe, sends, _, rfl⟩ | ⟨equal, _⟩
  · have emitter := (sole pe).mp sends
    rcases mem_broadcastVector.mp inside with clash | ⟨pr, _, differ, same⟩
    · exact emitEvent_ne_recvEvent s s (SyncElement.mk.inj clash).2.1.symm
    · exact differ (emitter.trans (SyncElement.mk.inj same).1)
  · obtain ⟨q, receives, differ⟩ := shared
    exact differ (equal p ((sole p).mpr rfl) q receives).symm

/-- The lines of a label are those of a broadcast unless a reception is lost. -/
theorem broadcastExact_broadcastLines_iff (models : stuckProcess ∉ receivers) :
    BroadcastExact emitters receivers s (broadcastLines s emitters receivers) ↔
      ¬ SoleEmitterReceives emitters receivers := by
  constructor
  · rintro exact ⟨p, sole, receives, shared⟩
    obtain ⟨v, member, weak, inside⟩ := exact.received p receives
    exact broadcastLines_lost sole shared member weak inside
  · intro covered
    refine ⟨fun pe sends partner => broadcastLines_once sends partner, ?_,
      fun pe _ none => broadcastLines_alone none,
      fun pr receives => broadcastLines_received covered receives, ?_, ?_,
      fun who move pr takes => broadcastLines_led models move takes⟩
    · intro pe sends partner
      exact ⟨_, mem_broadcastLines.mpr (.inl ⟨pe, sends, partner, rfl⟩),
        broadcastMap_perm s pe (procSet_toList_nodup receivers)⟩
    · intro pr receives alone
      exact ⟨_, broadcastLines_receiverBlocked covered receives alone,
        pairVector_perm _ _ (ne_of_mem_of_not_mem receives models)⟩
    · intro pr receives alone
      obtain ⟨v, member, weak, inside⟩ := broadcastLines_received (s := s) covered receives
      exact alone v member _ inside rfl

end Lines

/-! ## The generation -/

/-- The generation returns, and the lines it writes for a channel recorded as
broadcast are those of a broadcast unless the only emitter also receives and
others do too. -/
theorem broadcast_exact_iff (st : TrState) (s : String) (recorded : s ∈ st.events.brodcasts) :
    (NoStuck st.events → ∃ st', exec sGenerateSyncVectors st = (.ok (), st')) ∧
    ∀ st', exec sGenerateSyncVectors st = (.ok (), st') →
      stuckProcess ∉ st.events.emitters.procs s → stuckProcess ∉ st.events.receivers.procs s →
      (BroadcastExact (st.events.emitters.procs s) (st.events.receivers.procs s) s (linesFor st s) ↔
        ¬ SoleEmitterReceives (st.events.emitters.procs s) (st.events.receivers.procs s)) := by
  constructor
  · rintro ⟨channels, csp⟩
    exact sGenerateSyncVectors_returns st channels csp
  · intro st' run _ models
    rw [linesFor_eq run, labelVectors_of_broadcast recorded]
    exact broadcastExact_broadcastLines_iff models

/-- An emitter that receives its own channel, and a second emitter. -/
theorem broadcast_exact_two_emitters :
    BroadcastExact ((eventsOf "b" ["P", "Q"] ["P", "R"] {"b"}).emitters.procs "b")
      ((eventsOf "b" ["P", "Q"] ["P", "R"] {"b"}).receivers.procs "b") "b"
      (linesFor (.ofEvents (eventsOf "b" ["P", "Q"] ["P", "R"] {"b"})) "b") := by
  obtain ⟨returns, exact_iff⟩ := broadcast_exact_iff
    (.ofEvents (eventsOf "b" ["P", "Q"] ["P", "R"] {"b"})) "b"
    (by simp [TrState.ofEvents, eventsOf])
  obtain ⟨st', run⟩ := returns (noStuck_eventsOf (by decide) (by decide))
  refine (exact_iff st' run (fun member => ?_) fun member => ?_).mpr ?_
  · exact absurd (mem_emitters_eventsOf.mp member).2 (by decide)
  · exact absurd (mem_receivers_eventsOf.mp member).2 (by decide)
  · rintro ⟨p, sole, _⟩
    have first := (sole "P").mp (mem_emitters_eventsOf.mpr (by decide))
    have second := (sole "Q").mp (mem_emitters_eventsOf.mpr (by decide))
    exact absurd (first.trans second.symm) (by decide)

/-- `P` is the only emitter of a broadcast that `P` and `Q` receive: its own
reception is in no vector. -/
theorem broadcast_overlap_loses_reception :
    (∃ st', exec sGenerateSyncVectors (.ofEvents (eventsOf "b" ["P"] ["P", "Q"] {"b"})) =
      (.ok (), st')) ∧
    linesFor (.ofEvents (eventsOf "b" ["P"] ["P", "Q"] {"b"})) "b" =
      [[⟨"P", "b_emit", false⟩, ⟨"Q", "b_recv", true⟩]] ∧
    ¬ BroadcastExact ((eventsOf "b" ["P"] ["P", "Q"] {"b"}).emitters.procs "b")
      ((eventsOf "b" ["P"] ["P", "Q"] {"b"}).receivers.procs "b") "b"
      (linesFor (.ofEvents (eventsOf "b" ["P"] ["P", "Q"] {"b"})) "b") ∧
    Asynchronous (linesFor (.ofEvents (eventsOf "b" ["P"] ["P", "Q"] {"b"})) "b") "P" "b_recv" := by
  have lines : linesFor (.ofEvents (eventsOf "b" ["P"] ["P", "Q"] {"b"})) "b" =
      [[⟨"P", "b_emit", false⟩, ⟨"Q", "b_recv", true⟩]] := by decide
  have clean : NoStuck (eventsOf "b" ["P"] ["P", "Q"] {"b"}) :=
    noStuck_eventsOf (by decide) (by decide)
  have alone : Asynchronous (linesFor (.ofEvents (eventsOf "b" ["P"] ["P", "Q"] {"b"})) "b")
      "P" "b_recv" := by
    rw [lines]
    decide
  refine ⟨sGenerateSyncVectors_returns _ clean.1 clean.2, lines, fun exact => ?_, alone⟩
  exact exact.neverAlone "P" (mem_receivers_eventsOf.mpr (by decide)) alone

end Utot
