import Utot.Library.Frame
import Utot.Translate.Model

/-!
# What is written behind the processes

The table of events is a list of messages; the synchronisation vectors are
`sync` lines, and the lines of the process `Stuck`.
-/

namespace Utot

open Utap Library Tchecker

section

variable {R : Frame TrState} (messages : ∀ s level args, R.rel s (s.write (.message level args)))

include messages

theorem keeps_message (verboseLevel level : Nat) (args : List Arg) :
    Keeps R (msg verboseLevel level args) :=
  Keeps.branch (Keeps.update fun s => messages s level args) (Keeps.ret _)

/-- The table of events is a list of messages. -/
theorem keeps_displayTable (env : Env) : Keeps R (sDisplayTableOfEvents env) := by
  have entries : ∀ action table, Keeps R
      (List.forM table (sDisplayProcSet env action) : Tr Unit) := by
    intro action table
    refine Keeps.forM fun entry _ => Keeps.bind (keeps_message messages _ _ _) fun _ => ?_
    exact Keeps.branch (Keeps.update fun s => messages s _ _) (Keeps.ret _)
  have listed : ∀ (set : EventSet), Keeps R (set.toList.forM fun e =>
      msg env.verboseLevel vlInfo [.text "\t", .text e, .text "\n"]) := fun set =>
    Keeps.forM fun e _ => keeps_message messages _ _ _
  unfold sDisplayTableOfEvents
  split
  · refine Keeps.bind Keeps.read fun st => Keeps.bind (keeps_message messages _ _ _) fun _ => ?_
    refine Keeps.bind (entries _ _) fun _ => Keeps.bind (entries _ _) fun _ =>
      Keeps.bind (entries _ _) fun _ => ?_
    have broadcasts : Keeps R (do
        if !st.events.brodcasts.isEmpty then
          msg env.verboseLevel vlInfo [.text "broadcast events:\n"]
          st.events.brodcasts.toList.forM fun e =>
            msg env.verboseLevel vlInfo [.text "\t", .text e, .text "\n"] : Tr Unit) :=
      Keeps.branch (Keeps.bind (keeps_message messages _ _ _) fun _ => listed _) (Keeps.ret _)
    dsimp only
    by_cases labels : (!st.events.labels.isEmpty) = true
    · rw [if_pos labels]
      exact Keeps.bind (keeps_message messages _ _ _) fun _ => Keeps.bind (listed _) fun _ =>
        broadcasts
    · rw [if_neg labels]
      exact broadcasts
  · exact Keeps.ret _

end

/-! ## Synchronisation vectors -/

/-- The outputs of the generation of vectors. -/
def IsEnding : Output → Prop
  | .line (.sync _) => True
  | .line (.process id) => id = stuckProcess
  | .line (.event id) => id = noSyncEvent
  | .line (.location process _ _) => process = stuckProcess
  | .line _ => False
  | .comment _ => True
  | .blank => False
  | .message _ _ => True

section

variable {R : Frame TrState} (writes : ∀ s o, IsEnding o → R.rel s (s.write o))

include writes

theorem keeps_ending {o : Output} (ending : IsEnding o) : Keeps R (write o) :=
  Keeps.update fun s => writes s o ending

theorem keeps_sync (sv : SyncMap) : Keeps R (sync sv) :=
  Keeps.bind (Keeps.lift _) fun _ => keeps_ending writes (o := .line (.sync _)) trivial

variable (flags : ∀ (s : TrState) events flag,
  R.rel s { s with events := events, addStuckProcess := flag })

include flags

theorem keeps_blockedEvent (s p : String) (trevent : String → String) :
    Keeps R (sGenerateBlockedEvent s p trevent) := by
  refine Keeps.bind Keeps.read fun st => ?_
  dsimp only
  split
  · refine Keeps.bind ?_ fun _ => Keeps.bind (Keeps.update fun s => flags s s.events false) fun _ =>
      keeps_sync writes _
    exact Keeps.bind (keeps_ending writes (o := .comment _) trivial) fun _ =>
      Keeps.bind (keeps_ending writes (o := .line (.process _)) rfl) fun _ =>
        Keeps.bind (keeps_ending writes (o := .line (.event _)) rfl) fun _ =>
          keeps_ending writes (o := .line (.location _ _ _)) rfl
  · exact keeps_sync writes _

theorem keeps_syncEmitters (s : String) (emitters : ProcSet) : Keeps R (sSyncEmitters s emitters) := by
  refine Keeps.bind Keeps.read fun st => ?_
  have clear (flag : Bool) : Keeps R (if flag then
      modify fun st => { st with
        events := { st.events with receivers := st.events.receivers.erase s } }
      else pure () : Tr Unit) :=
    Keeps.branch (Keeps.update fun st => flags st _ st.addStuckProcess) (Keeps.ret _)
  dsimp only
  split
  · exact Keeps.branch (Keeps.ret _) (Keeps.forM fun pe _ => keeps_blockedEvent writes flags _ _ _)
  · rename_i receivers _
    refine Keeps.bind (Keeps.lift _) fun _ => ?_
    have pair (pe pr : String) : Keeps R (sGenerateEmitRecv s pe pr) :=
      Keeps.branch (Keeps.ret _) (Keeps.bind (keeps_sync writes _) fun _ => Keeps.ret _)
    split
    · refine Keeps.bind (Keeps.foldlM (fun pe _ flag => ?_) _) clear
      refine Keeps.bind ?_ fun _ => Keeps.ret _
      unfold sGenerateEmitBroadcast
      dsimp only
      split
      · exact Keeps.bind (keeps_sync writes _) fun _ => Keeps.ret _
      · exact Keeps.ret _
    · refine Keeps.bind (Keeps.foldlM (fun pe _ flag => ?_) _) clear
      refine Keeps.bind (Keeps.foldlM (fun pr _ norecv => ?_) _) fun norecv => ?_
      · exact Keeps.bind (pair pe pr) fun _ => Keeps.ret _
      · split
        · exact Keeps.bind (keeps_blockedEvent writes flags _ _ _) fun _ => Keeps.ret _
        · exact Keeps.ret _

theorem keeps_strongSync (s : String) (processes : ProcSet)
    (allowedCsp : Std.TreeMap String EventSet) :
    Keeps R (sGenerateStrongSync s processes allowedCsp) := by
  refine Keeps.bind (Keeps.foldlM (fun p _ vect => ?_) _) fun vect =>
    Keeps.branch (keeps_sync writes _) (Keeps.ret _)
  unfold sStrongSyncStep
  split
  · exact Keeps.bind (keeps_blockedEvent writes flags _ _ _) fun _ => Keeps.ret _
  · exact Keeps.ret _

/-- The generation of vectors writes endings only. -/
theorem keeps_syncVectors : Keeps R sGenerateSyncVectors := by
  refine Keeps.bind (Keeps.update fun s => flags s s.events true) fun _ => Keeps.bind ?_ fun _ => ?_
  · refine Keeps.bind Keeps.read fun st => Keeps.bind (Keeps.forM fun kv _ => ?_) fun _ =>
      Keeps.bind Keeps.read fun st' => Keeps.forM fun kv _ => Keeps.forM fun pr _ => ?_
    · exact keeps_syncEmitters writes flags _ _
    · exact keeps_blockedEvent writes flags _ _ _
  · exact Keeps.bind Keeps.read fun st => Keeps.forM fun kv _ => keeps_strongSync writes flags _ _ _

end

end Utot
