import Utot.Labels.Uses

/-!
# Broadcast channels

The table `brodcasts` is filled from the type of the symbol written on an edge,
when an event is met for the first time.  This module says when the table ends
up with the labels of the channels that were declared broadcast, whatever the
order of the processes and the edges.
-/

namespace Utot

open Utap Library Tchecker

/-- A channel, or the cells of an array of channels, were declared broadcast. -/
def declaredBroadcast : Ty → Bool
  | .pre k t => k == .broadcast || declaredBroadcast t
  | .ref t => declaredBroadcast t
  | .label _ t => declaredBroadcast t
  | .range t _ _ => declaredBroadcast t
  | .array sub _ => declaredBroadcast sub
  | .prim _ => false
  | .record _ _ => false

/-- Below an array type `s_is_broadcast` reads the prefixes right. -/
theorem is_broadcast_eq (t : Ty) (single : t.isArray = false) :
    t.is (.pre .broadcast) = declaredBroadcast t := by
  induction t using declaredBroadcast.induct with
  | case1 k t ih =>
      have inner : t.isArray = false := by simpa [Ty.isArray, Ty.is] using single
      rw [Ty.is, declaredBroadcast, ih inner]
      congr 1
      cases k <;> rfl
  | case2 t ih =>
      have inner : t.isArray = false := by simpa [Ty.isArray, Ty.is] using single
      rw [Ty.is, declaredBroadcast, ← ih inner]
      rfl
  | case3 name t ih =>
      have inner : t.isArray = false := by simpa [Ty.isArray, Ty.is] using single
      rw [Ty.is, declaredBroadcast, ← ih inner]
      rfl
  | case4 t lower upper ih =>
      have inner : t.isArray = false := by simpa [Ty.isArray, Ty.is] using single
      rw [Ty.is, declaredBroadcast, ← ih inner]
      rfl
  | case5 sub size => simp [Ty.isArray, Ty.is] at single
  | case6 k => cases k <;> rfl
  | case7 => rfl

/-- The symbols on the edges are classified as the channels they denote, and
no event or label is shared by channels that are not. -/
structure ModesAgree (env : Env) (processes : List Instance) : Prop where
  classified : ∀ {kind : SyncKind} {s : String} {written actual : Symbol},
    Uses env processes kind s written actual →
      isBroadcastType (env.getType written) = declaredBroadcast (env.getType actual)
  oneLabel : ∀ {kind kind' : SyncKind} {s s' : String} {written written' actual actual' : Symbol},
    Uses env processes kind s written actual → Uses env processes kind' s' written' actual' →
      eventOf kind s = eventOf kind' s' → s = s'
  oneMode : ∀ {kind kind' : SyncKind} {s : String} {written written' actual actual' : Symbol},
    Uses env processes kind s written actual → Uses env processes kind' s written' actual' →
      declaredBroadcast (env.getType actual) = declaredBroadcast (env.getType actual')

section

variable {env : Env} {processes : List Instance}

/-- What holds of the tables after any number of visits. -/
structure ModesInvariant (env : Env) (processes : List Instance) (events : GlobalEvents) : Prop where
  /-- An event is introduced for a use whose label is recorded if it is broadcast. -/
  recorded : ∀ ev ∈ events.labels, ∃ kind s written actual,
    Uses env processes kind s written actual ∧ eventOf kind s = ev ∧
      (declaredBroadcast (env.getType actual) = true → s ∈ events.brodcasts)
  /-- A label is recorded for a use of a broadcast channel. -/
  sound : ∀ s ∈ events.brodcasts, ∃ kind written actual,
    Uses env processes kind s written actual ∧ declaredBroadcast (env.getType actual) = true

/-- The use of a channel keeps the invariant. -/
theorem ModesInvariant.step (agree : ModesAgree env processes) {events : GlobalEvents}
    (holds : ModesInvariant env processes events) {kind : SyncKind} {s : String}
    {written actual : Symbol} (use : Uses env processes kind s written actual) (process : String) :
    ModesInvariant env processes
      (recordEvent (declaredIn env written (eventOf kind s) s events) kind s process) := by
  have grows : ∀ label ∈ events.brodcasts,
      label ∈ (declaredIn env written (eventOf kind s) s events).brodcasts := by
    intro label inside
    unfold declaredIn
    split
    · exact inside
    · dsimp only
      split
      · exact Std.TreeSet.mem_insert.mpr (.inr inside)
      · exact inside
  constructor
  · intro ev inside
    rw [recordEvent_labels] at inside
    rw [recordEvent_brodcasts]
    by_cases old : ev ∈ events.labels
    · obtain ⟨kind', s', written', actual', use', same, broadcast⟩ := holds.recorded ev old
      exact ⟨kind', s', written', actual', use', same, fun mode => grows _ (broadcast mode)⟩
    · by_cases known : eventOf kind s ∈ events.labels
      · rw [declaredIn, if_pos known] at inside
        exact absurd inside old
      · rw [declaredIn, if_neg known] at inside ⊢
        rcases Std.TreeSet.mem_insert.mp inside with same | inside
        · refine ⟨kind, s, written, actual, use, Std.compare_eq_iff_eq.mp same, fun mode => ?_⟩
          rw [sIsBroadcast, agree.classified use, mode]
          exact Std.TreeSet.mem_insert_self
        · exact absurd inside old
  · intro label inside
    rw [recordEvent_brodcasts] at inside
    unfold declaredIn at inside
    split at inside
    · exact holds.sound label inside
    · dsimp only at inside
      split at inside
      · rename_i broadcast
        rcases Std.TreeSet.mem_insert.mp inside with same | inside
        · rw [← Std.compare_eq_iff_eq.mp same]
          rw [sIsBroadcast, agree.classified use] at broadcast
          exact ⟨kind, written, actual, use, broadcast⟩
        · exact holds.sound label inside
      · exact holds.sound label inside

/-- In a state with the invariant the label of a use whose event was introduced
is recorded exactly if its channel is broadcast. -/
theorem ModesInvariant.exact (agree : ModesAgree env processes) {events : GlobalEvents}
    (holds : ModesInvariant env processes events) {kind : SyncKind} {s : String}
    {written actual : Symbol} (use : Uses env processes kind s written actual)
    (introduced : eventOf kind s ∈ events.labels) :
    s ∈ events.brodcasts ↔ declaredBroadcast (env.getType actual) = true := by
  constructor
  · intro inside
    obtain ⟨kind', written', actual', use', mode⟩ := holds.sound s inside
    rw [agree.oneMode use use']
    exact mode
  · intro mode
    obtain ⟨kind', s', written', actual', use', same, broadcast⟩ := holds.recorded _ introduced
    have label := agree.oneLabel use' use same
    subst label
    exact broadcast ((agree.oneMode use' use).trans mode)

/-- The synchronisation of a visited edge, if any, has a channel behind it and a
base label with the property. -/
def LabelledWith (env : Env) (holds : SyncKind → String → Symbol → Prop) (ctx : ContextPrefix)
    (q : Instance) (e : Edge) : Prop :=
  ∀ kind channel, e.sync = some (.sync kind channel) → ∃ written s actual,
    channel.getSymbol? = some written ∧ Resolves env q channel actual ∧
    baseLabel env q written (.sync kind channel) ctx = .ok s ∧ holds kind s actual

/-- The visit of an edge keeps the invariant and introduces the event of its label. -/
theorem visit_modes (agree : ModesAgree env processes) (ctx : ContextPrefix) (q : Instance)
    (e : Edge) (visit : Visit env processes ctx q e) :
    Spec (fun st => ModesInvariant env processes st.events) (sTranslateEdge env e ctx q)
      (fun _ st => ModesInvariant env processes st.events ∧
        LabelledWith env (fun kind s _ => eventOf kind s ∈ st.events.labels) ctx q e)
      fun _ => True := by
  refine (Spec.anyOf fun before => Spec.assume (c := ModesInvariant env processes before)
    fun pre => (sTranslateEdge_spec env e ctx q before).weaken (fun _ same => same) ?_
      fun _ failed => failed).weaken (fun st pre => ⟨st.events, pre, rfl⟩) (fun _ _ post => post)
    fun _ failed => failed
  rintro _ st (⟨silent, same⟩ | ⟨kind, channel, written, s, sync, symbol, labelled, tables⟩)
  · rw [same]
    exact ⟨pre, fun kind channel sync => by rw [silent] at sync; cases sync⟩
  · obtain ⟨actual, resolves⟩ := resolves_of_baseLabel labelled
    have use : Uses env processes kind s written actual :=
      ⟨ctx, q, e, channel, visit, sync, symbol, resolves, labelled⟩
    rw [tables]
    refine ⟨pre.step agree use _, fun kind' channel' sync' => ?_⟩
    rw [sync] at sync'
    cases sync'
    refine ⟨written, s, actual, symbol, resolves, labelled, ?_⟩
    rw [recordEvent_labels, declaredIn]
    split
    · rename_i known
      exact known
    · exact Std.TreeSet.mem_insert_self

end

/-- The IO sections leave the tables of labels alone. -/
theorem registerIoSections_spec (env : Env) (globals : Declarations) {J : GlobalEvents → Prop}
    (stable : ∀ events allowed, J events → J { events with allowedCsp := allowed }) :
    Spec (fun st => J st.events) (registerIoSections env globals) (fun _ st => J st.events)
      fun _ => True := by
  unfold registerIoSections
  split
  · exact spec_unchanged (keepsEvents_write _)
  · refine Spec.read fun r pre => Spec.liftBind (fun allowed _ => ?_) fun _ _ => trivial
    exact Spec.update (by rintro st rfl; exact stable _ _ pre)

/-- Once all processes have been translated, the label of every edge that was
visited is recorded as broadcast exactly if the channel it denotes was declared
broadcast, provided the symbols on the edges are classified as these channels. -/
theorem brodcasts_exact {env : Env} {sysname : String} {tas : TimedAutomataSystem} {st' : TrState}
    (agree : ModesAgree env tas.processes)
    (run : exec (translateProcesses env sysname tas) .initial = (.ok (), st')) :
    ∀ ctx q e, Visit env tas.processes ctx q e → LabelledWith env (fun _ s actual =>
      s ∈ st'.events.brodcasts ↔ declaredBroadcast (env.getType actual) = true) ctx q e := by
  have start : ModesInvariant env tas.processes GlobalEvents.empty := by
    constructor <;> simp [GlobalEvents.empty]
  have loop := processes_each (J := ModesInvariant env tas.processes) tas.processes
    (T := labelsGrow) (C := fun ctx q e events =>
      LabelledWith env (fun kind s _ => eventOf kind s ∈ events.labels) ctx q e)
    (fun ctx q e events events' grow done kind channel sync => by
      obtain ⟨written, s, actual, symbol, resolves, labelled, inside⟩ := done kind channel sync
      exact ⟨written, s, actual, symbol, resolves, labelled, grow _ inside⟩)
    (sTranslateEdge_grows env) (visit_modes agree)
  have preamble : Spec (fun st => st = TrState.initial) (writeLine (.system sysname))
      (fun _ st => ModesInvariant env tas.processes st.events) (fun _ => True) :=
    Spec.update (by rintro st rfl; exact start)
  have whole := preamble.bind fun _ =>
    (spec_unchanged (keepsEvents_declarations env none [] tas.globals)).bind fun _ =>
      (registerIoSections_spec env tas.globals fun _ _ holds => ⟨holds.recorded, holds.sound⟩).bind
        fun _ => loop
  obtain ⟨holds, introduced⟩ := whole.returned rfl run
  intro ctx q e visit kind channel sync
  obtain ⟨written, s, actual, symbol, resolves, labelled, inside⟩ :=
    introduced ctx q e visit kind channel sync
  exact ⟨written, s, actual, symbol, resolves, labelled,
    holds.exact agree ⟨ctx, q, e, channel, visit, sync, symbol, resolves, labelled⟩ inside⟩

/-! ## A channel passed by reference -/

/-- The symbols of a model with a channel `c` and a template whose parameter `b`
is bound to it. -/
def referenceEnv (channel parameter : Ty) : Env :=
  envOfSymbols [⟨"t(0)", .prim .clock, false, some ⟨none⟩⟩, ⟨"c", channel, false, some ⟨none⟩⟩,
    ⟨"b", parameter, false, none⟩, ⟨"P", .prim .unknown, false, none⟩,
    ⟨"A", .prim .location, true, none⟩]

/-- The only edge of the template emits `b`. -/
def referenceEdge (parameter : Ty) : Edge :=
  { actname := "", src := some 4, dst := some 4, select := [], guard := .constant 1 (.prim .bool)
    sync := some (.sync .bang (.identifier 2 parameter)), assign := .constant 1 (.prim .int) }

/-- `P`, the template with `b` bound to `c`. -/
def referenceProcess (channel parameter : Ty) : Instance :=
  { uid := 3, parameters := [2], mapping := (∅ : Mapping).insert 2 (.identifier 1 channel)
    unbound := 0
    templ := { vars := [], iodecl := [], functions := [], init := 4, states := [⟨4, none⟩]
               edges := [referenceEdge parameter] } }

def referenceModel (channel parameter : Ty) : TimedAutomataSystem :=
  ⟨⟨[0, 1], [], []⟩, [referenceProcess channel parameter]⟩

theorem uses_reference {channel parameter : Ty} {kind : SyncKind} {s : String}
    {written actual : Symbol}
    (use : Uses (referenceEnv channel parameter) (referenceModel channel parameter).processes kind s
      written actual) : kind = .bang ∧ s = "c" ∧ written = 2 ∧ actual = 1 := by
  obtain ⟨ctx, q, e, ch, ⟨p, listed, r, ⟨m, inst, rfl⟩, member, selects⟩, sync, symbol, resolves,
    labelled⟩ := use
  rw [referenceModel, List.mem_singleton] at listed
  subst listed
  cases inst
  rw [mergeMapping, referenceProcess, List.mem_singleton] at member
  subst member
  cases selects
  cases sync
  cases symbol
  have target : (mergeMapping (referenceProcess channel parameter)
      (referenceProcess channel parameter).mapping).mapping[2]? = some (.identifier 1 channel) := rfl
  have plain : (mergeMapping (referenceProcess channel parameter)
      (referenceProcess channel parameter).mapping).mapping[1]? = none := rfl
  have expected : Resolves (referenceEnv channel parameter) (mergeMapping
      (referenceProcess channel parameter) (referenceProcess channel parameter).mapping)
      (.identifier 2 parameter) 1 := .parameter target (.declared plain)
  have label : baseLabel (referenceEnv channel parameter) (mergeMapping
      (referenceProcess channel parameter) (referenceProcess channel parameter).mapping) 2
      (.sync .bang (.identifier 2 parameter)) ["P"] = .ok "c" := rfl
  have printed := labelled.symm.trans label
  cases printed
  exact ⟨rfl, rfl, rfl, expected.unique resolves |>.symm⟩

def broadcastChannel : Ty := .pre .broadcast (.prim .channel)

/-- The parameter repeats the mode of the channel. -/
theorem brodcasts_exact_reference :
    ∃ st', exec (translateProcesses (referenceEnv broadcastChannel (.ref broadcastChannel)) "S"
        (referenceModel broadcastChannel (.ref broadcastChannel))) .initial = (.ok (), st') ∧
      ∀ ctx q e, Visit (referenceEnv broadcastChannel (.ref broadcastChannel))
          (referenceModel broadcastChannel (.ref broadcastChannel)).processes ctx q e →
        LabelledWith (referenceEnv broadcastChannel (.ref broadcastChannel)) (fun _ s actual =>
          s ∈ st'.events.brodcasts ↔ declaredBroadcast
            ((referenceEnv broadcastChannel (.ref broadcastChannel)).getType actual) = true)
          ctx q e := by
  have run : exec (translateProcesses (referenceEnv broadcastChannel (.ref broadcastChannel)) "S"
      (referenceModel broadcastChannel (.ref broadcastChannel))) .initial = (.ok (), _) := rfl
  refine ⟨_, run, brodcasts_exact ⟨?_, ?_, ?_⟩ run⟩
  · intro kind s written actual use
    obtain ⟨_, _, rfl, rfl⟩ := uses_reference use
    rfl
  · intro kind kind' s s' written written' actual actual' use use' _
    obtain ⟨_, rfl, _, _⟩ := uses_reference use
    obtain ⟨_, rfl, _, _⟩ := uses_reference use'
    rfl
  · intro kind kind' s written written' actual actual' use use'
    obtain ⟨_, _, _, rfl⟩ := uses_reference use
    obtain ⟨_, _, _, rfl⟩ := uses_reference use'
    rfl

/-- The template of a model in which the plain channel `c` is passed to a
parameter `broadcast chan &b`, and the mapping of its only process. -/
def promotedInstance : Instance :=
  mergeMapping (referenceProcess (.prim .channel) (.ref broadcastChannel))
    (referenceProcess (.prim .channel) (.ref broadcastChannel)).mapping

/-- A plain channel passed to a parameter `broadcast chan &b` ends up recorded
as broadcast. -/
theorem brodcasts_follow_parameter :
    ∃ st', exec (translateProcesses (referenceEnv (.prim .channel) (.ref broadcastChannel)) "S"
        (referenceModel (.prim .channel) (.ref broadcastChannel))) .initial = (.ok (), st') ∧
      ¬ ∀ ctx q e, Visit (referenceEnv (.prim .channel) (.ref broadcastChannel))
          (referenceModel (.prim .channel) (.ref broadcastChannel)).processes ctx q e →
        LabelledWith (referenceEnv (.prim .channel) (.ref broadcastChannel)) (fun _ s actual =>
          s ∈ st'.events.brodcasts ↔ declaredBroadcast
            ((referenceEnv (.prim .channel) (.ref broadcastChannel)).getType actual) = true)
          ctx q e := by
  have run : exec (translateProcesses (referenceEnv (.prim .channel) (.ref broadcastChannel)) "S"
      (referenceModel (.prim .channel) (.ref broadcastChannel))) .initial = (.ok (), _) := rfl
  refine ⟨_, run, fun exact => ?_⟩
  have visit : Visit (referenceEnv (.prim .channel) (.ref broadcastChannel))
      (referenceModel (.prim .channel) (.ref broadcastChannel)).processes ["P"] promotedInstance
      (referenceEdge (.ref broadcastChannel)) :=
    ⟨_, List.mem_singleton_self _, _, ⟨_, .done _ _, rfl⟩, List.mem_singleton_self _, .done _⟩
  obtain ⟨written, s, actual, symbol, resolves, labelled, iff⟩ :=
    exact _ _ _ visit .bang (.identifier 2 (.ref broadcastChannel)) rfl
  obtain ⟨_, rfl, _, rfl⟩ := uses_reference
    ⟨_, _, _, _, visit, rfl, symbol, resolves, labelled⟩
  have recorded : "c" ∈ (exec (translateProcesses
      (referenceEnv (.prim .channel) (.ref broadcastChannel)) "S"
      (referenceModel (.prim .channel) (.ref broadcastChannel))) .initial).2.events.brodcasts := by
    decide
  exact absurd (iff.mp recorded) (by decide)

end Utot
