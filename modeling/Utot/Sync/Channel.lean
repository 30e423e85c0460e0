import Utot.Sync.Generation

/-!
# The vectors of one label

The generator walks through the whole table of emitters and then through the
receivers that are left.  The vectors that mention the events of one label are
those of its own rounds, because emission and reception events of different
labels differ.
-/

namespace Utot

open Library Tchecker

/-! ## Events of different labels -/

theorem emitEvent_inj {s t : String} : emitEvent s = emitEvent t ↔ s = t := String.append_left_inj _

theorem recvEvent_inj {s t : String} : recvEvent s = recvEvent t ↔ s = t := String.append_left_inj _

/-- Two words of one length that end two equal strings are equal. -/
theorem suffix_eq {a b x y : String} (same : a ++ x = b ++ y)
    (length : x.toList.length = y.toList.length) : x = y := by
  have lists := congrArg String.toList same
  rw [String.toList_append, String.toList_append] at lists
  exact String.toList_inj.mp (List.append_inj_right' lists length)

theorem emitEvent_ne_recvEvent (s t : String) : emitEvent s ≠ recvEvent t := by
  intro same
  have suffix := suffix_eq same (by decide)
  exact absurd suffix (by decide)

theorem emitEvent_ne_noSync (s : String) : emitEvent s ≠ noSyncEvent := by
  intro same
  have suffix := suffix_eq (same.trans (by decide : noSyncEvent = "n" ++ "osync"))
    (by decide)
  exact absurd suffix (by decide)

theorem recvEvent_ne_noSync (s : String) : recvEvent s ≠ noSyncEvent := by
  intro same
  have suffix := suffix_eq (same.trans (by decide : noSyncEvent = "n" ++ "osync"))
    (by decide)
  exact absurd suffix (by decide)

/-- The vector mentions the emission or the reception event of the label. -/
def concerns (s : String) (v : SyncVector) : Bool :=
  v.any fun x => x.event == emitEvent s || x.event == recvEvent s

theorem concerns_iff {s : String} {v : SyncVector} :
    concerns s v = true ↔ ∃ x ∈ v, x.event = emitEvent s ∨ x.event = recvEvent s := by
  simp [concerns]

/-- The vector mentions no events but those of the label and `nosync`. -/
def Within (s : String) (v : SyncVector) : Prop :=
  ∀ x ∈ v, x.event = emitEvent s ∨ x.event = recvEvent s ∨ x.event = noSyncEvent

theorem not_concerns_of_within {s t : String} {v : SyncVector} (differ : s ≠ t)
    (within : Within t v) : concerns s v = false := by
  rw [Bool.eq_false_iff, Ne, concerns_iff]
  rintro ⟨x, member, emits | receives⟩
  · rcases within x member with e | r | n
    · exact differ (emitEvent_inj.mp (emits.symm.trans e))
    · exact emitEvent_ne_recvEvent s t (emits.symm.trans r)
    · exact emitEvent_ne_noSync s (emits.symm.trans n)
  · rcases within x member with e | r | n
    · exact emitEvent_ne_recvEvent t s (e.symm.trans receives)
    · exact differ (recvEvent_inj.mp (receives.symm.trans r))
    · exact recvEvent_ne_noSync s (receives.symm.trans n)

/-- What is known of every vector the rounds of a label write. -/
def OwnVector (s : String) (v : SyncVector) : Prop := concerns s v = true ∧ Within s v

theorem pairVector_own (s pe pr : String) : OwnVector s (pairVector pe (emitEvent s) pr (recvEvent s)) := by
  constructor
  · exact concerns_iff.mpr ⟨_, first_mem_pairVector _ _ _ _, .inl rfl⟩
  · intro x member
    rcases event_of_mem_pairVector member with emits | receives
    · exact .inl emits
    · exact .inr (.inl receives)

theorem blockedEmit_own (s p : String) : OwnVector s (blockedVector p (emitEvent s)) := by
  constructor
  · exact concerns_iff.mpr ⟨_, first_mem_pairVector _ _ _ _, .inl rfl⟩
  · intro x member
    rcases event_of_mem_pairVector member with emits | silent
    · exact .inl emits
    · exact .inr (.inr silent)

theorem blockedRecv_own (s p : String) : OwnVector s (blockedVector p (recvEvent s)) := by
  constructor
  · exact concerns_iff.mpr ⟨_, first_mem_pairVector _ _ _ _, .inr rfl⟩
  · intro x member
    rcases event_of_mem_pairVector member with receives | silent
    · exact .inr (.inl receives)
    · exact .inr (.inr silent)

theorem broadcastVector_own (s pe : String) {receivers : List String} (distinct : receivers.Nodup) :
    OwnVector s (elements (broadcastMap s pe receivers)) := by
  constructor
  · exact concerns_iff.mpr ⟨⟨pe, emitEvent s, false⟩, (mem_broadcastMap distinct).mpr (.inl rfl),
      .inl rfl⟩
  · intro x member
    rcases (mem_broadcastMap distinct).mp member with same | ⟨pr, _, _, same⟩
    · exact .inl (by rw [same])
    · exact .inr (.inl (by rw [same]))

theorem channelVectors_own (events : GlobalEvents) (s : String) (emitters : List String) :
    ∀ v ∈ channelVectors events s emitters, OwnVector s v := by
  intro v member
  unfold channelVectors at member
  split at member
  · obtain ⟨pe, _, member⟩ := List.mem_flatMap.mp member
    split at member
    · rw [List.mem_singleton.mp member]
      exact broadcastVector_own s pe (procSet_toList_nodup _)
    · cases member
  · obtain ⟨pe, _, member⟩ := List.mem_flatMap.mp member
    split at member
    · obtain ⟨pr, _, same⟩ := List.mem_map.mp member
      rw [← same]
      exact pairVector_own s pe pr
    · rw [List.mem_singleton.mp member]
      exact blockedEmit_own s pe

/-! ## Selecting one entry of a table -/

/-- Among the vectors written for the entries of a table, those that concern a
label were written for its own entry. -/
theorem filter_flatMap_entries {label : String} {f : String → List String → List SyncVector}
    (table : ProcTable) (own : ∀ (s : String) (procs : ProcSet), ∀ v ∈ f s procs.toList, OwnVector s v)
    (none : f label [] = []) :
    (table.map.toList.flatMap fun kv => f kv.1 kv.2.toList).filter (concerns label) =
      f label (table.procs label).toList := by
  have others : ∀ kv : String × ProcSet, kv.1 ≠ label →
      (f kv.1 kv.2.toList).filter (concerns label) = [] := fun kv differ => by
    rw [List.filter_eq_nil_iff]
    intro v member found
    rw [not_concerns_of_within (Ne.symm differ) (own kv.1 kv.2 v member).2] at found
    cases found
  have itself : ∀ procs : ProcSet, (f label procs.toList).filter (concerns label) =
      f label procs.toList := fun procs => by
    rw [List.filter_eq_self]
    exact fun v member => (own label procs v member).1
  have distinct := Std.TreeMap.distinct_keys_toList (t := table.map)
  have entry : ∀ procs, (label, procs) ∈ table.map.toList ↔ table.map[label]? = some procs :=
    fun procs => Std.TreeMap.mem_toList_iff_getElem?_eq_some
  have absent : ∀ entries : List (String × ProcSet), (∀ kv ∈ entries, kv.1 ≠ label) →
      (entries.flatMap fun kv => f kv.1 kv.2.toList).filter (concerns label) = [] := by
    intro entries away
    rw [List.filter_flatMap]
    exact List.flatMap_eq_nil_iff.mpr fun kv member => others kv (away kv member)
  cases found : table.map[label]? with
  | none =>
      rw [absent _ ?_, ProcTable.procs, found]
      · exact none.symm
      · rintro ⟨key, procs⟩ member rfl
        rw [(entry procs).mp member] at found
        cases found
  | some procs =>
      obtain ⟨before, after, split⟩ := List.append_of_mem ((entry procs).mpr found)
      rw [split, List.pairwise_append, List.pairwise_cons] at distinct
      obtain ⟨_, ⟨later, _⟩, earlier⟩ := distinct
      have noneBefore := absent before fun kv member same =>
        earlier kv member (label, procs) List.mem_cons_self (Std.compare_eq_iff_eq.mpr same)
      have noneAfter := absent after fun kv member same =>
        later kv member (Std.compare_eq_iff_eq.mpr same.symm)
      rw [split, List.flatMap_append, List.flatMap_cons, List.filter_append, List.filter_append,
        noneBefore, noneAfter, itself, ProcTable.procs, found, List.nil_append, List.append_nil]
      rfl

/-! ## The loops -/

/-- The label has an emitter and another process that receives it. -/
def Paired (events : GlobalEvents) (label : String) (emitters : ProcSet) : Bool :=
  synchronised emitters.toList (events.receivers.procs label).toList

/-- What some rounds of the loop over the emitters leave of the tables. -/
structure Cleared (events : GlobalEvents) (visited : List (String × ProcSet))
    (after : GlobalEvents) : Prop where
  brodcasts : after.brodcasts = events.brodcasts
  csp : after.csp = events.csp
  allowedCsp : after.allowedCsp = events.allowedCsp
  receivers : ∀ label : String, after.receivers.procs label =
    if visited.any fun kv => kv.1 == label && Paired events label kv.2 then ∅
    else events.receivers.procs label

theorem Cleared.start (events : GlobalEvents) : Cleared events [] events :=
  ⟨rfl, rfl, rfl, fun _ => rfl⟩

/-- A round for a new label reads the receivers of the first table. -/
theorem Cleared.fresh {events after : GlobalEvents} {visited : List (String × ProcSet)}
    (cleared : Cleared events visited after) {label : String}
    (new : ∀ kv ∈ visited, kv.1 ≠ label) :
    after.receivers.procs label = events.receivers.procs label := by
  rw [cleared.receivers label, if_neg]
  intro seen
  obtain ⟨kv, member, paired⟩ := List.any_eq_true.mp seen
  rw [Bool.and_eq_true, beq_iff_eq] at paired
  exact new kv member paired.1

theorem Cleared.round {events after : GlobalEvents} {visited : List (String × ProcSet)}
    (cleared : Cleared events visited after) {label : String} (emitters : ProcSet)
    (new : ∀ kv ∈ visited, kv.1 ≠ label) :
    Cleared events (visited ++ [(label, emitters)])
      (clearReceivers after label emitters.toList) := by
  have same := cleared.fresh new
  unfold clearReceivers
  rw [same]
  constructor
  · split <;> exact cleared.brodcasts
  · split <;> exact cleared.csp
  · split <;> exact cleared.allowedCsp
  · intro other
    rw [List.any_append, List.any_cons, List.any_nil, Bool.or_false]
    change _ = if (_ || (label == other && synchronised emitters.toList _)) = true then _ else _
    by_cases own : label = other
    · subst own
      have unseen : (visited.any fun kv => kv.1 == label && Paired events label kv.2) = false := by
        rw [List.any_eq_false]
        intro kv member
        simp [new kv member]
      simp only [unseen, Bool.false_or, beq_self_eq_true, Bool.true_and]
      split
      · simp [ProcTable.procs_erase]
      · exact same
    · simp only [beq_eq_false_iff_ne.mpr own, Bool.false_and, Bool.or_false]
      split
      · rw [ProcTable.procs_erase, if_neg own, cleared.receivers other]
      · exact cleared.receivers other

/-- Some process of the tables of channels is called `Stuck`. -/
def HasStuck (events : GlobalEvents) : Prop :=
  ∃ label, stuckProcess ∈ events.emitters.procs label ∨ stuckProcess ∈ events.receivers.procs label

theorem mem_procs_of_mem_toList {table : ProcTable} {kv : String × ProcSet}
    (member : kv ∈ table.map.toList) : table.procs kv.1 = kv.2 := by
  rw [ProcTable.procs, Std.TreeMap.mem_toList_iff_getElem?_eq_some.mp member]
  rfl

/-- The vectors of the loop over the table of emitters. -/
def emitterPart (events : GlobalEvents) : List SyncVector :=
  events.emitters.map.toList.flatMap fun kv => channelVectors events kv.1 kv.2.toList

/-- The vectors of the loop over the table of receivers. -/
def receiverPart (events : GlobalEvents) : List SyncVector :=
  events.receivers.map.toList.flatMap fun kv =>
    kv.2.toList.map fun pr => blockedVector pr (recvEvent kv.1)

variable {vs : List SyncVector} {events : GlobalEvents}

theorem emittersLoop_spec :
    Spec (Wrote vs events)
      (events.emitters.map.toList.forM fun kv => sSyncEmitters kv.1 kv.2)
      (fun _ st => ∃ after, Cleared events events.emitters.map.toList after ∧
        Wrote (vs ++ emitterPart events) after st)
      (fun _ => HasStuck events) := by
  have distinct := Std.TreeMap.distinct_keys_toList (t := events.emitters.map)
  have loop := Spec.forM (l := events.emitters.map.toList)
    (f := fun kv => sSyncEmitters kv.1 kv.2) (E := fun _ => HasStuck events)
    (I := fun visited st => ∃ after, Cleared events visited after ∧
      Wrote (vs ++ visited.flatMap fun kv => channelVectors events kv.1 kv.2.toList) after st)
    fun visited kv rest split => by
      have member : kv ∈ events.emitters.map.toList := by
        rw [split]
        simp
      have new : ∀ earlier ∈ visited, earlier.1 ≠ kv.1 := by
        rw [split, List.pairwise_append] at distinct
        intro earlier seen same
        exact distinct.2.2 earlier seen kv List.mem_cons_self (Std.compare_eq_iff_eq.mpr same)
      refine Spec.anyOf fun after => Spec.assume fun cleared => ?_
      refine (sSyncEmitters_spec kv.1 kv.2).weaken (fun _ pre => pre) (fun _ st post => ?_)
        fun _ stuck => ?_
      · refine ⟨_, cleared.round kv.2 new, ?_⟩
        simpa [channelVectors, cleared.brodcasts, cleared.fresh new, List.append_assoc] using post
      · refine ⟨kv.1, .inl ?_⟩
        rwa [mem_procs_of_mem_toList member]
  exact loop.weaken (fun st pre => ⟨events, .start events, by simpa using pre⟩)
    (fun _ _ post => post) fun _ stuck => stuck

theorem receiversLoop_spec :
    Spec (Wrote vs events)
      (events.receivers.map.toList.forM fun kv =>
        kv.2.toList.forM fun pr => sGenerateBlockedEvent kv.1 pr recvEvent)
      (fun _ => Wrote (vs ++ receiverPart events) events)
      (fun _ => ∃ label, stuckProcess ∈ events.receivers.procs label) := by
  have loop := Spec.forM (l := events.receivers.map.toList)
    (f := fun kv => kv.2.toList.forM fun pr => sGenerateBlockedEvent kv.1 pr recvEvent)
    (E := fun _ => ∃ label, stuckProcess ∈ events.receivers.procs label)
    (I := fun visited => Wrote (vs ++ visited.flatMap fun kv =>
      kv.2.toList.map fun pr => blockedVector pr (recvEvent kv.1)) events)
    fun visited kv rest split => by
      have member : kv ∈ events.receivers.map.toList := by
        rw [split]
        simp
      refine (blockedLoop_spec kv.1 kv.2.toList recvEvent).weaken (fun _ pre => pre)
        (fun _ st post => ?_) fun _ stuck => ?_
      · simpa [List.append_assoc] using post
      · refine ⟨kv.1, ?_⟩
        rw [mem_procs_of_mem_toList member]
        exact Std.TreeSet.mem_toList.mp stuck
  exact loop.weaken (fun st pre => by simpa using pre) (fun _ _ post => post) fun _ stuck => stuck

/-- The vectors that concern a label: those of its emitters, then its receivers
that no other process has synchronised with. -/
def labelVectors (events : GlobalEvents) (s : String) : List SyncVector :=
  let emitters := (events.emitters.procs s).toList
  let receivers := (events.receivers.procs s).toList
  channelVectors events s emitters ++
    if synchronised emitters receivers then []
    else receivers.map fun pr => blockedVector pr (recvEvent s)

/-- The receivers that are left once every emitter has been visited. -/
theorem Cleared.finished {events after : GlobalEvents}
    (cleared : Cleared events events.emitters.map.toList after) (label : String) :
    after.receivers.procs label =
      if Paired events label (events.emitters.procs label) then ∅
      else events.receivers.procs label := by
  rw [cleared.receivers label]
  congr 1
  apply propext
  rw [List.any_eq_true]
  constructor
  · rintro ⟨kv, member, paired⟩
    rw [Bool.and_eq_true, beq_iff_eq] at paired
    obtain ⟨same, paired⟩ := paired
    subst same
    rwa [mem_procs_of_mem_toList member]
  · intro paired
    cases found : events.emitters.map[label]? with
    | none =>
        rw [ProcTable.procs, found] at paired
        cases paired
    | some emitters =>
        refine ⟨(label, emitters), Std.TreeMap.mem_toList_iff_getElem?_eq_some.mpr found, ?_⟩
        rw [ProcTable.procs, found] at paired
        simpa using paired

theorem filter_parts {after : GlobalEvents}
    (cleared : Cleared events events.emitters.map.toList after) (s : String) :
    (emitterPart events ++ receiverPart after).filter (concerns s) = labelVectors events s := by
  have emitters : (emitterPart events).filter (concerns s) =
      channelVectors events s (events.emitters.procs s).toList :=
    filter_flatMap_entries (f := channelVectors events) events.emitters
      (fun label procs => channelVectors_own events label procs.toList)
      (by unfold channelVectors; split <;> rfl)
  have receivers : (receiverPart after).filter (concerns s) =
      (after.receivers.procs s).toList.map fun pr => blockedVector pr (recvEvent s) :=
    filter_flatMap_entries (f := fun label procs => procs.map fun pr => blockedVector pr (recvEvent label))
      after.receivers (fun label procs v member => by
        obtain ⟨pr, _, same⟩ := List.mem_map.mp member
        rw [← same]
        exact blockedRecv_own label pr) rfl
  rw [List.filter_append, emitters, receivers, cleared.finished s, Paired, labelVectors]
  split <;> rfl

/-- The two loops add, for every label, exactly its own vectors. -/
theorem sGenerateChannelVectors_spec :
    Spec (Wrote vs events) sGenerateChannelVectors
      (fun _ st => ∃ added after, (after.csp = events.csp ∧ after.allowedCsp = events.allowedCsp) ∧
        (∀ s, added.filter (concerns s) = labelVectors events s) ∧ Wrote (vs ++ added) after st)
      (fun _ => HasStuck events) := by
  refine Spec.read fun r pre => ?_
  obtain ⟨written, tables⟩ := pre
  subst tables
  refine Spec.bind (emittersLoop_spec.weaken (A := fun st => st = r)
    (by rintro st rfl; exact ⟨written, rfl⟩) (fun _ _ post => post) fun _ stuck => stuck) fun _ => ?_
  refine Spec.anyOf fun after => Spec.assume fun cleared => ?_
  refine Spec.read fun r' pre' => ?_
  obtain ⟨written', tables'⟩ := pre'
  subst tables'
  refine receiversLoop_spec.weaken (A := fun st => st = r')
    (by rintro st rfl; exact ⟨written', rfl⟩) (fun _ st post => ?_) fun _ stuck => ?_
  · refine ⟨emitterPart r.events ++ receiverPart r'.events, r'.events,
      ⟨cleared.csp, cleared.allowedCsp⟩, filter_parts cleared, ?_⟩
    rw [← List.append_assoc]
    exact post
  · obtain ⟨label, receives⟩ := stuck
    rw [cleared.finished label] at receives
    split at receives
    · simp at receives
    · exact ⟨label, .inr receives⟩

end Utot
