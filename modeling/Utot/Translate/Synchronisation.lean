import Utot.Translate.Output

/-!
# Synchronisation vectors

The last phase of a translation: from the tables of events to `sync` lines.
-/

namespace Utot

open Library Tchecker

/-- `s_generate_emit_recv`. -/
def sGenerateEmitRecv (s pe pr : String) : Tr Bool :=
  if pe = pr then pure false
  else do
    sync (((∅ : SyncMap).insertIfNew pe (emitEvent s, false)).insertIfNew pr (recvEvent s, false))
    pure true

/-- The vector `s_generate_emit_broadcast` builds. -/
def broadcastMap (s pe : String) (receivers : List String) : SyncMap :=
  receivers.foldl
    (fun vect pr => if pe = pr then vect else vect.insertIfNew pr (recvEvent s, true))
    ((∅ : SyncMap).insertIfNew pe (emitEvent s, false))

/-- `s_generate_emit_broadcast`. -/
def sGenerateEmitBroadcast (s pe : String) (receivers : ProcSet) : Tr Bool := do
  let vect := broadcastMap s pe receivers.toList
  if 2 ≤ vect.size then sync vect
  pure (2 ≤ vect.size)

/-- `s_add_stuck_process`. -/
def sAddStuckProcess : Tr Unit := do
  commentln [.text "dummy process used to block emitted/received events that aren't synchronized."]
  writeLine (.process stuckProcess)
  writeLine (.event noSyncEvent)
  writeLine (.location stuckProcess "sink" [("initial", "")])

/-- `s_generate_blocked_event`. -/
def sGenerateBlockedEvent (s p : String) (trevent : String → String) : Tr Unit := do
  let st ← get
  if st.addStuckProcess then
    sAddStuckProcess
    modify fun st => { st with addStuckProcess := false }
  sync (((∅ : SyncMap).insertIfNew p (trevent s, false)).insertIfNew stuckProcess
    (noSyncEvent, false))

/-- The body of the loop of `s_generate_strong_sync`. -/
def sStrongSyncStep (allowedCsp : Std.TreeMap String EventSet) (s : String) (vect : SyncMap)
    (p : String) : Tr SyncMap :=
  match allowedCsp[p]? with
  | none => do
      sGenerateBlockedEvent s p cspEvent
      pure vect
  | some set => pure (if s ∈ set then vect.insertIfNew p (s, false) else vect)

/-- `s_generate_strong_sync`. -/
def sGenerateStrongSync (s : String) (processes : ProcSet)
    (allowedCsp : Std.TreeMap String EventSet) : Tr Unit := do
  let vect ← processes.toList.foldlM (sStrongSyncStep allowedCsp s) ∅
  if 2 ≤ vect.size then sync vect

/-- The inner loop over the receivers of one emitter; the answer is `norecv`. -/
def sPairEmitter (s pe : String) (receivers : ProcSet) : Tr Bool :=
  receivers.toList.foldlM
    (fun norecv pr => do
      let paired ← sGenerateEmitRecv s pe pr
      pure (if paired then false else norecv))
    true

/-- One round of the loop over the emitters of a channel that is not broadcast;
the flag is `clear_receivers`. -/
def sBinaryEmitter (s : String) (receivers : ProcSet) (clear : Bool) (pe : String) : Tr Bool := do
  let norecv ← sPairEmitter s pe receivers
  if norecv then do
    sGenerateBlockedEvent s pe emitEvent
    pure clear
  else pure true

/-- One round of the loop over the emitters of a broadcast channel. -/
def sBroadcastEmitter (s : String) (receivers : ProcSet) (clear : Bool) (pe : String) : Tr Bool := do
  let sent ← sGenerateEmitBroadcast s pe receivers
  pure (if sent then true else clear)

/-- One round of the loop of `s_generate_sync_vectors` over the emitters. -/
def sSyncEmitters (s : String) (emitters : ProcSet) : Tr Unit := do
  let st ← get
  match st.events.receivers.map[s]? with
  | none =>
      if s ∈ st.events.brodcasts then pure ()
      else emitters.toList.forM fun pe => sGenerateBlockedEvent s pe emitEvent
  | some receivers => do
      assertTr (!receivers.isEmpty) "!receivers.empty ()"
      let clear ←
        if s ∈ st.events.brodcasts then
          emitters.toList.foldlM (sBroadcastEmitter s receivers) false
        else emitters.toList.foldlM (sBinaryEmitter s receivers) false
      if clear then
        modify fun st => { st with
          events := { st.events with receivers := st.events.receivers.erase s } }

/-- The loops of `s_generate_sync_vectors` over the emitters and the remaining
receivers. -/
def sGenerateChannelVectors : Tr Unit := do
  let st ← get
  st.events.emitters.map.toList.forM fun kv => sSyncEmitters kv.1 kv.2
  let st ← get
  st.events.receivers.map.toList.forM fun kv =>
    kv.2.toList.forM fun pr => sGenerateBlockedEvent kv.1 pr recvEvent

/-- The loop of `s_generate_sync_vectors` over the CSP labels. -/
def sGenerateCspVectors : Tr Unit := do
  let st ← get
  st.events.csp.map.toList.forM fun kv =>
    sGenerateStrongSync kv.1 kv.2 st.events.allowedCsp

/-- `s_generate_sync_vectors`. -/
def sGenerateSyncVectors : Tr Unit := do
  modify fun st => { st with addStuckProcess := true }
  sGenerateChannelVectors
  sGenerateCspVectors

end Utot
