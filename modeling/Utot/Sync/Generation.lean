import Utot.Sync.Vectors

/-!
# What the generation writes

Each function of the last phase has one specification: the vectors it adds to
those written before and what it leaves of the tables.  It throws only when a
process is itself called `Stuck`, since a vector then has a single element.
-/

namespace Utot

open Library Tchecker

/-- The vectors written so far and the tables. -/
def Wrote (vs : List SyncVector) (events : GlobalEvents) (st : TrState) : Prop :=
  st.vectors = vs ∧ st.events = events

section Writing

variable {vs : List SyncVector} {events : GlobalEvents}

theorem sync_spec (sv : SyncMap) :
    Spec (Wrote vs events) (sync sv) (fun _ => Wrote (vs ++ [elements sv]) events)
      (fun _ => ¬ 2 ≤ sv.size) := by
  refine Spec.bind (Q := fun _ => Wrote vs events) ?_ fun _ => ?_
  · refine Spec.lift (fun _ pre _ _ => pre) fun _ _ _ failed enough => ?_
    simp [assertThat, enough] at failed
  · refine Spec.update fun st pre => ?_
    obtain ⟨written, tables⟩ := pre
    exact ⟨by rw [TrState.vectors_writeLine_sync, written], tables⟩

/-- The lines that introduce the process `Stuck` contain no vector. -/
theorem sAddStuckProcess_spec {E : TrState → Prop} :
    Spec (Wrote vs events) sAddStuckProcess (fun _ => Wrote vs events) E := by
  have comment : Spec (Wrote vs events) (commentln
      [.text "dummy process used to block emitted/received events that aren't synchronized."])
      (fun _ => Wrote vs events) E :=
    Spec.update fun st pre => ⟨by simpa using pre.1, pre.2⟩
  have process : Spec (Wrote vs events) (writeLine (.process stuckProcess))
      (fun _ => Wrote vs events) E :=
    Spec.update fun st pre => ⟨by simpa using pre.1, pre.2⟩
  have event : Spec (Wrote vs events) (writeLine (.event noSyncEvent))
      (fun _ => Wrote vs events) E :=
    Spec.update fun st pre => ⟨by simpa using pre.1, pre.2⟩
  have location : Spec (Wrote vs events) (writeLine (.location stuckProcess "sink" [("initial", "")]))
      (fun _ => Wrote vs events) E :=
    Spec.update fun st pre => ⟨by simpa using pre.1, pre.2⟩
  exact comment.bind fun _ => process.bind fun _ => event.bind fun _ => location

/-- A blocked event is paired with `nosync` of `Stuck`. -/
theorem sGenerateBlockedEvent_spec (s p : String) (trevent : String → String) :
    Spec (Wrote vs events) (sGenerateBlockedEvent s p trevent)
      (fun _ => Wrote (vs ++ [blockedVector p (trevent s)]) events)
      (fun _ => p = stuckProcess) := by
  have written := (@sync_spec vs events
    (((∅ : SyncMap).insertIfNew p (trevent s, false)).insertIfNew stuckProcess
      (noSyncEvent, false))).weaken (fun _ pre => pre) (fun _ _ post => post)
    (F := fun _ => p = stuckProcess) fun _ failed => by
      rw [pairMap_size] at failed
      exact not_not.mp failed
  refine Spec.read fun r pre => ?_
  dsimp only
  split
  · refine Spec.bind (Q := fun _ => Wrote vs events) ?_ fun _ => ?_
    · exact sAddStuckProcess_spec.weaken (by rintro s rfl; exact pre) (fun _ _ post => post)
        fun _ failed => failed
    · exact Spec.bind (Spec.update fun _ pre => pre) fun _ => written
  · exact written.weaken (by rintro s rfl; exact pre) (fun _ _ post => post) fun _ failed => failed

/-! ## Channels that are not broadcast -/

/-- The vectors of one emitter and the receivers other than itself. -/
def pairVectors (s pe : String) (receivers : List String) : List SyncVector :=
  (receivers.filter (pe ≠ ·)).map fun pr => pairVector pe (emitEvent s) pr (recvEvent s)

theorem sGenerateEmitRecv_spec (s pe pr : String) {E : TrState → Prop} :
    Spec (Wrote vs events) (sGenerateEmitRecv s pe pr)
      (fun paired st => paired = (pe ≠ pr : Bool) ∧
        Wrote (vs ++ pairVectors s pe [pr]) events st) E := by
  unfold sGenerateEmitRecv
  by_cases same : pe = pr
  · rw [if_pos same]
    refine Spec.ret _ fun st pre => ⟨by simp [same], ?_⟩
    simpa [pairVectors, same] using pre
  · rw [if_neg same]
    refine Spec.bind (Q := fun _ => Wrote (vs ++ pairVectors s pe [pr]) events) ?_ fun _ => ?_
    · refine (sync_spec _).weaken (fun _ pre => pre) (fun _ st post => ?_) fun _ failed => ?_
      · simpa [pairVectors, same, pairVector] using post
      · exact absurd ((pairMap_size _ _ _ _).mpr same) failed
    · exact Spec.ret _ fun st pre => ⟨by simp [same], pre⟩

theorem sPairEmitter_spec (s pe : String) (receivers : ProcSet) {E : TrState → Prop} :
    Spec (Wrote vs events) (sPairEmitter s pe receivers)
      (fun norecv st => norecv = !hasPartner pe receivers.toList ∧
        Wrote (vs ++ pairVectors s pe receivers.toList) events st) E := by
  let seen (visited : List String) (norecv : Bool) (st : TrState) : Prop :=
    norecv = !hasPartner pe visited ∧ Wrote (vs ++ pairVectors s pe visited) events st
  have loop : Spec (seen [] true) (sPairEmitter s pe receivers) (seen receivers.toList) E := by
    refine Spec.foldlM (I := seen) (fun visited pr rest norecv _ => ?_) true
    refine Spec.assume fun before => Spec.bind (sGenerateEmitRecv_spec s pe pr) fun paired => ?_
    refine Spec.ret _ fun st post => ?_
    obtain ⟨answer, written⟩ := post
    constructor
    · subst before answer
      by_cases same : pe = pr <;> simp [hasPartner, same]
    · simpa [pairVectors, List.append_assoc] using written
  exact loop.weaken (fun st pre => ⟨rfl, by simpa [pairVectors] using pre⟩) (fun _ _ post => post)
    fun _ failed => failed

/-- Some emitter has a receiver other than itself. -/
def synchronised (emitters receivers : List String) : Bool :=
  emitters.any fun pe => hasPartner pe receivers

/-- The vectors of a channel that is not broadcast. -/
def binaryVectors (s : String) (emitters receivers : List String) : List SyncVector :=
  emitters.flatMap fun pe =>
    if hasPartner pe receivers then pairVectors s pe receivers
    else [blockedVector pe (emitEvent s)]

theorem pairVectors_eq_nil {s pe : String} {receivers : List String}
    (alone : hasPartner pe receivers = false) : pairVectors s pe receivers = [] := by
  rw [pairVectors, List.map_eq_nil_iff, List.filter_eq_nil_iff]
  intro pr member differ
  have partner : hasPartner pe receivers = true :=
    hasPartner_iff.mpr ⟨pr, member, by simpa using differ⟩
  rw [alone] at partner
  cases partner

theorem sBinaryEmitter_spec (s : String) (receivers : ProcSet) (clear : Bool) (pe : String) :
    Spec (Wrote vs events) (sBinaryEmitter s receivers clear pe)
      (fun clear' st => clear' = (clear || synchronised [pe] receivers.toList) ∧
        Wrote (vs ++ binaryVectors s [pe] receivers.toList) events st)
      (fun _ => pe = stuckProcess) := by
  refine Spec.bind (sPairEmitter_spec s pe receivers) fun norecv => Spec.assume fun answer => ?_
  cases partner : hasPartner pe receivers.toList with
  | true =>
      rw [partner] at answer
      subst answer
      refine Spec.ret _ fun st written => ⟨by simp [synchronised, partner], ?_⟩
      simpa [binaryVectors, partner] using written
  | false =>
      rw [partner] at answer
      subst answer
      refine Spec.bind (sGenerateBlockedEvent_spec s pe emitEvent) fun _ => ?_
      refine Spec.ret _ fun st written => ⟨by simp [synchronised, partner], ?_⟩
      simpa [binaryVectors, partner, pairVectors_eq_nil partner] using written

/-! ## Broadcast channels -/

/-- The vectors of a broadcast channel. -/
def broadcastVectors (s : String) (emitters receivers : List String) : List SyncVector :=
  emitters.flatMap fun pe =>
    if hasPartner pe receivers then [elements (broadcastMap s pe receivers)] else []

theorem procSet_toList_nodup (procs : ProcSet) : procs.toList.Nodup :=
  Std.TreeSet.distinct_toList.imp fun differ same => differ (Std.compare_eq_iff_eq.mpr same)

theorem sBroadcastEmitter_spec (s : String) (receivers : ProcSet) (clear : Bool) (pe : String)
    {E : TrState → Prop} :
    Spec (Wrote vs events) (sBroadcastEmitter s receivers clear pe)
      (fun clear' st => clear' = (clear || synchronised [pe] receivers.toList) ∧
        Wrote (vs ++ broadcastVectors s [pe] receivers.toList) events st) E := by
  have size := broadcastMap_size s pe (procSet_toList_nodup receivers)
  refine Spec.bind (Q := fun sent st => sent = hasPartner pe receivers.toList ∧
    Wrote (vs ++ broadcastVectors s [pe] receivers.toList) events st) ?_ fun sent => ?_
  · unfold sGenerateEmitBroadcast
    cases partner : hasPartner pe receivers.toList with
    | true =>
        have enough := size.mpr partner
        simp only [enough, if_true]
        refine Spec.bind (Q := fun _ => Wrote (vs ++ broadcastVectors s [pe] receivers.toList) events)
          ?_ fun _ => Spec.ret _ fun st written => ⟨rfl, written⟩
        refine (sync_spec _).weaken (fun _ pre => pre) (fun _ st post => ?_)
          fun _ failed => absurd enough failed
        simpa [broadcastVectors, partner] using post
    | false =>
        have few : ¬ 2 ≤ (broadcastMap s pe receivers.toList).size := by
          rw [size, partner]
          exact Bool.false_ne_true
        simp only [few, if_false]
        refine Spec.ret _ fun st pre => ⟨by simp, ?_⟩
        simpa [broadcastVectors, partner] using pre
  · refine Spec.ret _ fun st post => ⟨?_, post.2⟩
    rw [post.1]
    cases partner : hasPartner pe receivers.toList <;> simp [synchronised, partner]

/-! ## One label -/

/-- The vectors of the loop over the emitters of one label. -/
def channelVectors (events : GlobalEvents) (s : String) (emitters : List String) : List SyncVector :=
  if s ∈ events.brodcasts then broadcastVectors s emitters (events.receivers.procs s).toList
  else binaryVectors s emitters (events.receivers.procs s).toList

/-- The tables after that loop. -/
def clearReceivers (events : GlobalEvents) (s : String) (emitters : List String) : GlobalEvents :=
  if synchronised emitters (events.receivers.procs s).toList then
    { events with receivers := events.receivers.erase s }
  else events

@[simp] theorem binaryVectors_nil (s : String) (receivers : List String) :
    binaryVectors s [] receivers = [] := rfl

@[simp] theorem broadcastVectors_nil (s : String) (receivers : List String) :
    broadcastVectors s [] receivers = [] := rfl

theorem binaryVectors_append (s : String) (first second receivers : List String) :
    binaryVectors s (first ++ second) receivers =
      binaryVectors s first receivers ++ binaryVectors s second receivers := by
  simp [binaryVectors]

theorem broadcastVectors_append (s : String) (first second receivers : List String) :
    broadcastVectors s (first ++ second) receivers =
      broadcastVectors s first receivers ++ broadcastVectors s second receivers := by
  simp [broadcastVectors]

theorem synchronised_append (first second receivers : List String) :
    synchronised (first ++ second) receivers =
      (synchronised first receivers || synchronised second receivers) := by
  simp [synchronised]

@[simp] theorem synchronised_no_receivers (emitters : List String) :
    synchronised emitters [] = false := by
  simp [synchronised, hasPartner]

/-- Without receivers every emission of a channel that is not broadcast is blocked. -/
theorem binaryVectors_no_receivers (s : String) (emitters : List String) :
    binaryVectors s emitters [] = emitters.map fun pe => blockedVector pe (emitEvent s) := by
  simp [binaryVectors, hasPartner, List.map_eq_flatMap]

/-- Without receivers an emission on a broadcast channel is in no vector. -/
theorem broadcastVectors_no_receivers (s : String) (emitters : List String) :
    broadcastVectors s emitters [] = [] := by
  simp [broadcastVectors, hasPartner]

theorem blockedLoop_spec (s : String) (procs : List String) (trevent : String → String) :
    Spec (Wrote vs events) (procs.forM fun p => sGenerateBlockedEvent s p trevent)
      (fun _ => Wrote (vs ++ procs.map fun p => blockedVector p (trevent s)) events)
      (fun _ => stuckProcess ∈ procs) := by
  have loop := Spec.forM (l := procs) (f := fun p => sGenerateBlockedEvent s p trevent)
    (I := fun visited => Wrote (vs ++ visited.map fun p => blockedVector p (trevent s)) events)
    (E := fun _ => stuckProcess ∈ procs) fun visited p rest split => by
      refine (sGenerateBlockedEvent_spec s p trevent).weaken (fun _ pre => pre) (fun _ st post => ?_)
        fun _ stuck => ?_
      · simpa [List.append_assoc] using post
      · rw [split, ← stuck]
        simp
  exact loop.weaken (fun st pre => by simpa using pre) (fun _ _ post => post) fun _ stuck => stuck

/-- The loop over the emitters of a label, for either kind of round: the flag is
set once an emitter had a partner, and the vectors of the rounds add up. -/
theorem emitterLoop_spec {round : Bool → String → Tr Bool} {E : TrState → Prop}
    (vectors : List String → List SyncVector) (emitters receivers : List String)
    (none : vectors [] = [])
    (append : ∀ first second, vectors (first ++ second) = vectors first ++ vectors second)
    (spec : ∀ (vs : List SyncVector) (clear : Bool) (pe : String), pe ∈ emitters →
      Spec (Wrote vs events) (round clear pe)
        (fun clear' st => clear' = (clear || synchronised [pe] receivers) ∧
          Wrote (vs ++ vectors [pe]) events st) E) :
    Spec (Wrote vs events) (emitters.foldlM round false)
      (fun clear st => clear = synchronised emitters receivers ∧
        Wrote (vs ++ vectors emitters) events st) E := by
  let seen (visited : List String) (clear : Bool) (st : TrState) : Prop :=
    clear = synchronised visited receivers ∧ Wrote (vs ++ vectors visited) events st
  have loop : Spec (seen [] false) (emitters.foldlM round false) (seen emitters) E := by
    refine Spec.foldlM (I := seen) (fun visited pe rest clear split => ?_) false
    have member : pe ∈ emitters := by
      rw [split]
      simp
    refine Spec.assume fun before => ?_
    refine (spec _ clear pe member).weaken (fun _ pre => pre) (fun _ st post => ?_)
      fun _ failed => failed
    constructor
    · rw [post.1, before, synchronised_append]
    · rw [append, ← List.append_assoc]
      exact post.2
  exact loop.weaken (fun st pre => ⟨rfl, by simpa [none] using pre⟩) (fun _ _ post => post)
    fun _ failed => failed

theorem binaryLoop_spec (s : String) (receivers : ProcSet) (emitters : List String) :
    Spec (Wrote vs events) (emitters.foldlM (sBinaryEmitter s receivers) false)
      (fun clear st => clear = synchronised emitters receivers.toList ∧
        Wrote (vs ++ binaryVectors s emitters receivers.toList) events st)
      (fun _ => stuckProcess ∈ emitters) :=
  emitterLoop_spec (fun emitters => binaryVectors s emitters receivers.toList)
    emitters receivers.toList rfl (fun first second => binaryVectors_append s first second _)
    fun _ clear pe member =>
      (sBinaryEmitter_spec s receivers clear pe).weaken (fun _ pre => pre) (fun _ _ post => post)
        fun _ stuck => by rwa [← stuck]

theorem broadcastLoop_spec (s : String) (receivers : ProcSet) (emitters : List String)
    {E : TrState → Prop} :
    Spec (Wrote vs events) (emitters.foldlM (sBroadcastEmitter s receivers) false)
      (fun clear st => clear = synchronised emitters receivers.toList ∧
        Wrote (vs ++ broadcastVectors s emitters receivers.toList) events st) E :=
  emitterLoop_spec (fun emitters => broadcastVectors s emitters receivers.toList)
    emitters receivers.toList rfl (fun first second => broadcastVectors_append s first second _)
    fun _ clear pe _ => sBroadcastEmitter_spec s receivers clear pe

/-- The end of a round: the flag decides whether the receivers are erased. -/
theorem clear_spec (s : String) (emitters : List String) {E : TrState → Prop} :
    Spec (Wrote vs events)
      (if synchronised emitters (events.receivers.procs s).toList then
        modify fun st => { st with
          events := { st.events with receivers := st.events.receivers.erase s } }
      else pure () : Tr Unit)
      (fun _ => Wrote vs (clearReceivers events s emitters)) E := by
  unfold clearReceivers
  split
  · refine Spec.update fun st pre => ⟨pre.1, ?_⟩
    rw [← pre.2]
  · exact Spec.ret _ fun _ pre => pre

/-- One round of the loop over the table of emitters. -/
theorem sSyncEmitters_spec (s : String) (emitters : ProcSet) :
    Spec (Wrote vs events) (sSyncEmitters s emitters)
      (fun _ => Wrote (vs ++ channelVectors events s emitters.toList)
        (clearReceivers events s emitters.toList))
      (fun _ => stuckProcess ∈ emitters) := by
  refine Spec.read fun r pre => ?_
  obtain ⟨written, tables⟩ := pre
  subst tables
  have start : ∀ st, st = r → Wrote vs r.events st := by
    rintro st rfl
    exact ⟨written, rfl⟩
  cases found : r.events.receivers.map[s]? with
  | none =>
      have noReceivers : (r.events.receivers.procs s).toList = [] := by
        rw [ProcTable.procs, found]
        rfl
      by_cases broadcast : s ∈ r.events.brodcasts
      · simp only [broadcast, if_true]
        refine Spec.ret _ fun st same => ?_
        simpa [channelVectors, clearReceivers, broadcast, noReceivers,
          broadcastVectors_no_receivers] using start st same
      · simp only [broadcast, if_false]
        refine (blockedLoop_spec s emitters.toList emitEvent).weaken start (fun _ st post => ?_)
          fun _ stuck => Std.TreeSet.mem_toList.mp stuck
        simpa [channelVectors, clearReceivers, broadcast, noReceivers,
          binaryVectors_no_receivers] using post
  | some receivers =>
      have same : r.events.receivers.procs s = receivers := by
        rw [ProcTable.procs, found]
        rfl
      have inhabited := r.events.receivers.inhabited s receivers found
      refine Spec.bind (Q := fun _ => Wrote vs r.events) ?_ fun _ => ?_
      · refine Spec.lift (fun st pre _ _ => start st pre) fun _ _ _ failed => ?_
        simp [assertThat, inhabited] at failed
      · dsimp only
        by_cases broadcast : s ∈ r.events.brodcasts
        · simp only [broadcast, if_true]
          refine Spec.bind (broadcastLoop_spec s receivers emitters.toList) fun clear =>
            Spec.assume fun answer => ?_
          rw [answer, ← same]
          simpa [channelVectors, broadcast] using clear_spec s emitters.toList
        · simp only [broadcast, if_false]
          refine Spec.bind ((binaryLoop_spec s receivers emitters.toList).weaken (fun _ pre => pre)
            (fun _ _ post => post) fun _ stuck => Std.TreeSet.mem_toList.mp stuck) fun clear =>
              Spec.assume fun answer => ?_
          rw [answer, ← same]
          simpa [channelVectors, broadcast] using clear_spec s emitters.toList

end Writing

end Utot
