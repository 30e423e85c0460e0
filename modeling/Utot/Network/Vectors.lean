import Utot.Sync.Csp

/-!
# The vectors of a whole run

Everything the last phase adds: the vectors of the labels of channels, and those
of the labels processes share.
-/

namespace Utot

open Library Tchecker

variable {vs : List SyncVector} {events : GlobalEvents}

theorem labelVectors_own (events : GlobalEvents) (s : String) : ∀ v ∈ labelVectors events s, OwnVector s v := by
  intro v member
  rcases List.mem_append.mp member with emitted | received
  · exact channelVectors_own events s _ v emitted
  · split at received
    · cases received
    · obtain ⟨pr, _, rfl⟩ := List.mem_map.mp received
      exact blockedRecv_own s pr

/-- What the two loops over channels write is written for a label. -/
theorem mem_parts {after : GlobalEvents} (cleared : Cleared events events.emitters.map.toList after)
    {v : SyncVector} :
    v ∈ emitterPart events ++ receiverPart after ↔ ∃ s, v ∈ labelVectors events s := by
  constructor
  · intro member
    have own : ∃ s, OwnVector s v := by
      rcases List.mem_append.mp member with emitted | received
      · obtain ⟨kv, _, inside⟩ := List.mem_flatMap.mp emitted
        exact ⟨kv.1, channelVectors_own events kv.1 _ v inside⟩
      · obtain ⟨kv, _, inside⟩ := List.mem_flatMap.mp received
        obtain ⟨pr, _, rfl⟩ := List.mem_map.mp inside
        exact ⟨kv.1, blockedRecv_own kv.1 pr⟩
    obtain ⟨s, concern, _⟩ := own
    refine ⟨s, ?_⟩
    rw [← filter_parts cleared s]
    exact List.mem_filter.mpr ⟨member, concern⟩
  · rintro ⟨s, member⟩
    rw [← filter_parts cleared s] at member
    exact (List.mem_filter.mp member).1

/-- The vectors of the shared labels. -/
def sharedVectors (events : GlobalEvents) : List SyncVector :=
  events.csp.map.toList.flatMap fun kv => cspVectors events.allowedCsp kv.1 kv.2.toList

/-- The last phase adds the vectors of the labels in the tables it starts with. -/
theorem sGenerateSyncVectors_exact : Spec (Wrote vs events) sGenerateSyncVectors
    (fun _ st => ∃ added, st.vectors = vs ++ added ∧
      ∀ v, v ∈ added ↔ (∃ s, v ∈ labelVectors events s) ∨ v ∈ sharedVectors events)
    (fun _ => True) := by
  let middle (st : TrState) : Prop := ∃ after,
    Cleared events events.emitters.map.toList after ∧
      Wrote (vs ++ (emitterPart events ++ receiverPart after)) after st
  have channels : Spec (Wrote vs events) sGenerateChannelVectors (fun _ => middle) fun _ => True := by
    refine Spec.read fun r pre => ?_
    obtain ⟨written, tables⟩ := pre
    subst tables
    refine Spec.bind (emittersLoop_spec.weaken (A := fun st => st = r)
      (by rintro st rfl; exact ⟨written, rfl⟩) (fun _ _ post => post) fun _ _ => trivial) fun _ => ?_
    refine Spec.anyOf fun after => Spec.assume fun cleared => Spec.read fun r' pre' => ?_
    obtain ⟨written', tables'⟩ := pre'
    subst tables'
    refine receiversLoop_spec.weaken (A := fun st => st = r')
      (by rintro st rfl; exact ⟨written', rfl⟩) (fun _ st post => ?_) fun _ _ => trivial
    refine ⟨r'.events, cleared, ?_⟩
    rw [← List.append_assoc]
    exact post
  refine Spec.bind (Q := fun _ => Wrote vs events) (Spec.update fun _ pre => pre) fun _ => ?_
  refine Spec.bind channels fun _ => Spec.anyOf fun after => Spec.assume fun cleared => ?_
  refine sGenerateCspVectors_spec.weaken (fun _ pre => pre) (fun _ st post => ?_) fun _ _ => trivial
  obtain ⟨written, _⟩ := post
  rw [List.append_assoc] at written
  refine ⟨_, written, fun v => ?_⟩
  rw [List.mem_append, mem_parts cleared, cleared.csp, cleared.allowedCsp]
  rfl

end Utot
