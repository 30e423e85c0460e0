import Utot.Sync.Channel

/-!
# Strong synchronisation

The vectors of a CSP label: one for each process without IO section, which it
blocks, and one for the processes whose IO section lists the label.
-/

namespace Utot

open Library Tchecker

/-- The table of IO sections, by process name. -/
abbrev AllowedCsp := Std.TreeMap String EventSet

/-- No IO section was registered for the process. -/
def hasNoSection (allowedCsp : AllowedCsp) (p : String) : Bool := (allowedCsp[p]?).isNone

/-- The IO sections of the process list the label. -/
def lists (allowedCsp : AllowedCsp) (s p : String) : Bool :=
  match allowedCsp[p]? with
  | none => false
  | some set => set.contains s

/-- The vector of the processes that list the label. -/
def joinedMap (allowedCsp : AllowedCsp) (s : String) (procs : List String) : SyncMap :=
  procs.foldl (fun vect p => if lists allowedCsp s p then vect.insertIfNew p (s, false) else vect) ∅

/-- The vectors of `s_generate_strong_sync`. -/
def cspVectors (allowedCsp : AllowedCsp) (s : String) (procs : List String) : List SyncVector :=
  ((procs.filter (hasNoSection allowedCsp)).map fun p => blockedVector p (cspEvent s)) ++
    if 2 ≤ (joinedMap allowedCsp s procs).size then [elements (joinedMap allowedCsp s procs)] else []

section

variable {vs : List SyncVector} {events : GlobalEvents} (allowedCsp : AllowedCsp)

theorem joinedFold_perm (s : String) (procs : List String) (start : SyncMap)
    (distinct : procs.Nodup) (fresh : ∀ p ∈ procs, p ∉ start) :
    (elements (procs.foldl
      (fun vect p => if lists allowedCsp s p then vect.insertIfNew p (s, false) else vect)
      start)).Perm
    ((procs.filter (lists allowedCsp s)).map (fun p => ⟨p, s, false⟩) ++ elements start) := by
  induction procs generalizing start with
  | nil => exact .refl _
  | cons p rest ih =>
      obtain ⟨new, distinct⟩ := List.nodup_cons.mp distinct
      rw [List.foldl_cons]
      cases listed : lists allowedCsp s p with
      | false =>
          simpa [listed] using ih start distinct fun q member => fresh q (List.mem_cons_of_mem _ member)
      | true =>
          have added := ih (start.insertIfNew p (s, false)) distinct (by
            intro q member
            have absent := fresh q (List.mem_cons_of_mem _ member)
            have differs : p ≠ q := fun equal => new (equal ▸ member)
            simp [Std.TreeMap.mem_insertIfNew, absent, differs])
          have one := elements_insertIfNew_perm s false
            (fresh p List.mem_cons_self)
          rw [List.filter_cons_of_pos listed, List.map_cons]
          exact added.trans ((one.append_left _).trans List.perm_middle)

theorem joinedMap_perm (s : String) {procs : List String} (distinct : procs.Nodup) :
    (elements (joinedMap allowedCsp s procs)).Perm
      ((procs.filter (lists allowedCsp s)).map fun p => ⟨p, s, false⟩) := by
  have folded := joinedFold_perm allowedCsp s procs ∅ distinct
    fun p _ => Std.TreeMap.not_mem_emptyc
  rwa [elements_empty, List.append_nil] at folded

theorem sStrongSyncStep_spec (s : String) (vect : SyncMap) (p : String) :
    Spec (Wrote vs events) (sStrongSyncStep allowedCsp s vect p)
      (fun vect' st =>
        vect' = (if lists allowedCsp s p then vect.insertIfNew p (s, false) else vect) ∧
        Wrote (vs ++ (([p].filter (hasNoSection allowedCsp)).map fun p =>
          blockedVector p (cspEvent s))) events st)
      (fun _ => p = stuckProcess ∧ hasNoSection allowedCsp p = true) := by
  unfold sStrongSyncStep
  cases found : allowedCsp[p]? with
  | none =>
      have noSection : hasNoSection allowedCsp p = true := by simp [hasNoSection, found]
      refine Spec.bind ((sGenerateBlockedEvent_spec s p cspEvent).weaken (fun _ pre => pre)
        (fun _ _ post => post) fun _ stuck => ⟨stuck, noSection⟩) fun _ => ?_
      refine Spec.ret _ fun st written => ⟨by simp [lists, found], ?_⟩
      simpa [noSection] using written
  | some set =>
      refine Spec.ret _ fun st written => ⟨?_, by simpa [hasNoSection, found] using written⟩
      simp [lists, found]

theorem sGenerateStrongSync_spec (s : String) (processes : ProcSet) :
    Spec (Wrote vs events) (sGenerateStrongSync s processes allowedCsp)
      (fun _ => Wrote (vs ++ cspVectors allowedCsp s processes.toList) events)
      (fun _ => stuckProcess ∈ processes ∧ hasNoSection allowedCsp stuckProcess = true) := by
  let seen (visited : List String) (vect : SyncMap) (st : TrState) : Prop :=
    vect = joinedMap allowedCsp s visited ∧
      Wrote (vs ++ (visited.filter (hasNoSection allowedCsp)).map fun p =>
        blockedVector p (cspEvent s)) events st
  have loop : Spec (seen [] ∅) (processes.toList.foldlM (sStrongSyncStep allowedCsp s) ∅)
      (seen processes.toList)
      (fun _ => stuckProcess ∈ processes ∧ hasNoSection allowedCsp stuckProcess = true) := by
    refine Spec.foldlM (I := seen) (fun visited p rest vect split => ?_) ∅
    refine Spec.assume fun before => ?_
    refine (sStrongSyncStep_spec allowedCsp s vect p).weaken (fun _ pre => pre) (fun _ st post => ?_)
      fun _ stuck => ?_
    · constructor
      · rw [post.1, before, joinedMap, joinedMap, List.foldl_append]
        rfl
      · rw [List.filter_append, List.map_append, ← List.append_assoc]
        exact post.2
    · obtain ⟨rfl, noSection⟩ := stuck
      refine ⟨?_, noSection⟩
      rw [← Std.TreeSet.mem_toList, split]
      simp
  refine Spec.bind (loop.weaken (fun st pre => ⟨rfl, by simpa using pre⟩) (fun _ _ post => post)
    fun _ stuck => stuck) fun vect => Spec.assume fun joined => ?_
  subst joined
  unfold cspVectors
  split
  · rename_i enough
    refine (sync_spec _).weaken (fun _ pre => pre) (fun _ st post => ?_)
      fun _ failed => absurd enough failed
    rwa [← List.append_assoc]
  · refine Spec.ret _ fun st pre => ?_
    rwa [List.append_nil]

end

/-- Some process that shares a label is called `Stuck`. -/
def CspHasStuck (events : GlobalEvents) : Prop := ∃ label, stuckProcess ∈ events.csp.procs label

variable {vs : List SyncVector} {events : GlobalEvents}

theorem sGenerateCspVectors_spec :
    Spec (Wrote vs events) sGenerateCspVectors
      (fun _ => Wrote (vs ++ events.csp.map.toList.flatMap fun kv =>
        cspVectors events.allowedCsp kv.1 kv.2.toList) events)
      (fun _ => CspHasStuck events) := by
  have loop := Spec.forM (l := events.csp.map.toList)
    (f := fun kv => sGenerateStrongSync kv.1 kv.2 events.allowedCsp)
    (E := fun _ => CspHasStuck events)
    (I := fun visited => Wrote (vs ++ visited.flatMap fun kv =>
      cspVectors events.allowedCsp kv.1 kv.2.toList) events)
    fun visited kv rest split => by
      have member : kv ∈ events.csp.map.toList := by
        rw [split]
        simp
      refine (sGenerateStrongSync_spec events.allowedCsp kv.1 kv.2).weaken (fun _ pre => pre)
        (fun _ st post => ?_) fun _ stuck => ?_
      · simpa [List.append_assoc] using post
      · refine ⟨kv.1, ?_⟩
        rw [mem_procs_of_mem_toList member]
        exact stuck.1
  refine Spec.read fun r pre => ?_
  obtain ⟨written, tables⟩ := pre
  subst tables
  exact loop.weaken (by rintro st rfl; exact ⟨by simpa using written, rfl⟩) (fun _ _ post => post)
    fun _ stuck => stuck

/-- Without a process called `Stuck` the generation returns. -/
theorem sGenerateSyncVectors_returns (st : TrState) (channels : ¬ HasStuck st.events)
    (csp : ¬ CspHasStuck st.events) : ∃ st', exec sGenerateSyncVectors st = (.ok (), st') := by
  have start : Spec (fun s => s = st) (modify fun st => { st with addStuckProcess := true } : Tr Unit)
      (fun _ => Wrote st.vectors st.events) (fun _ => False) :=
    Spec.update (by rintro s rfl; exact ⟨rfl, rfl⟩)
  have loops := (@sGenerateChannelVectors_spec st.vectors st.events).weaken
    (F := fun _ => False) (fun _ pre => pre) (fun _ _ post => post) fun _ stuck => channels stuck
  have whole : Spec (fun s => s = st) sGenerateSyncVectors (fun _ _ => True) (fun _ => False) := by
    refine start.bind fun _ => loops.bind fun _ => ?_
    refine Spec.anyOf fun added => Spec.anyOf fun after => Spec.assume fun kept =>
      Spec.assume fun _ => ?_
    refine sGenerateCspVectors_spec.weaken (fun _ pre => pre) (fun _ _ _ => trivial) fun _ stuck => ?_
    obtain ⟨label, member⟩ := stuck
    rw [kept.1] at member
    exact csp ⟨label, member⟩
  obtain ⟨_, st', run, _⟩ := whole.returns rfl
  exact ⟨st', run⟩

end Utot
