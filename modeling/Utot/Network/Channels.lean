import Utot.Network.Correspondence

/-!
# Channels and the tables of events

The tables the vectors are made from say which instances emit and receive the
cells of channels, and which of these were declared broadcast.
-/

namespace Utot

open Utap Uppaal Library Tchecker

/-- An edge of the instance has the signal. -/
def Offers {V : Type} (A : Arithmetic V) (env : Env) (tas : TimedAutomataSystem) (o : Owner)
    (signal : Signal) : Prop :=
  ∃ l x, Uppaal.EdgeOf A env tas o l signal x

/-! ## Events of synchronisations -/

theorem eventOf_inj {kind kind' : SyncKind} {s s' : String} (noCsp : kind ≠ .csp) (noCsp' : kind' ≠ .csp)
    (same : eventOf kind s = eventOf kind' s') : kind = kind' ∧ s = s' := by
  cases kind <;> cases kind' <;> first
    | exact absurd rfl noCsp
    | exact absurd rfl noCsp'
    | exact ⟨rfl, emitEvent_inj.mp same⟩
    | exact ⟨rfl, recvEvent_inj.mp same⟩
    | exact absurd same (emitEvent_ne_recvEvent _ _)
    | exact absurd same.symm (emitEvent_ne_recvEvent _ _)

theorem tauEvent_ne_eventOf {kind : SyncKind} {s : String} (noCsp : kind ≠ .csp) : tauEvent ≠ eventOf kind s := by
  cases kind with
  | que => exact tauEvent_ne_append (by decide)
  | bang => exact tauEvent_ne_append (by decide)
  | csp => exact absurd rfl noCsp

section

variable {V : Type} {A : Arithmetic V} {env : Env} {sysname : String} {tas : TimedAutomataSystem}
  {st st' middle : TrState} {o : Owner} {process s : String} {kind : SyncKind} {signal : Signal}
  {written actual : Symbol}

section

variable (tractable : Tractable A env tas)

include tractable

/-- The label of a use names the cell the channel denotes. -/
theorem cell_of_use (use : Uses env tas.processes kind s written actual) :
    kind ≠ .csp ∧ ∃ cell, Named env tas cell s ∧ cell.symbol = actual := by
  obtain ⟨ctx, q, e, channel, visit, sync, symbol, resolves, base⟩ := use
  obtain ⟨o, p, lives, rfl, member, chooses⟩ := (visit_iff tractable.ranges).mp visit
  obtain ⟨noCsp, exact, c, indices, denotes⟩ :=
    tractable.renderable.channels o p lives e member q chooses kind channel sync
  have selects := (selects_iff_chooses (tractable.ranges.selects o p lives e member)).mpr chooses
  have named := (synchronised_of_exact lives.listed (instanceOf_lives tractable.ranges lives) lives.count
    ⟨member, selects⟩ sync symbol denotes exact base).named tractable.scopes
  exact ⟨noCsp, _, named, (resolves_of_denotes denotes).unique resolves⟩

/-- The modes of channels agree if the symbols on the edges are classified as the
channels behind them. -/
theorem modesAgree_of_classified (classified : ∀ kind s written actual,
    Uses env tas.processes kind s written actual →
      isBroadcastType (env.getType written) = declaredBroadcast (env.getType actual)) :
    ModesAgree env tas.processes where
  classified := classified _ _ _ _
  oneLabel use use' same :=
    (eventOf_inj (cell_of_use tractable use).1 (cell_of_use tractable use').1 same).2
  oneMode use use' := by
    obtain ⟨_, cell, named, rfl⟩ := cell_of_use tractable use
    obtain ⟨_, cell', named', rfl⟩ := cell_of_use tractable use'
    rw [tractable.apart.cell_eq tractable.scopes.toDistinctSymbols named named']

variable (nothing : st.lines = []) (run : exec (translateSystem env sysname tas) st = (.ok (), st'))

include nothing run

/-- An edge with an event of a channel is visited as a use of the channel. -/
theorem use_of_offers (noCsp : kind ≠ .csp) (named : Names env tas o process)
    (same : SameEvent env tas signal (eventOf kind s)) (offers : Offers A env tas o signal) :
    ∃ written cell, Named env tas cell s ∧ Synchronises env tas.processes process kind written s ∧
      Uses env tas.processes kind s written cell.symbol := by
  obtain ⟨l, x, edge⟩ := offers
  cases edge with
  | @edge p q e target _ f F lives member chooses src dst signals guard update =>
  have visit : Visit env tas.processes (prefixOf env p o.2) q e :=
    (visit_iff tractable.ranges).mpr ⟨o, p, lives, rfl, member, chooses⟩
  obtain ⟨line, listed, printed⟩ := edge_of_visit nothing run visit
  cases printed with
  | line _ _ label _ =>
  have channels := tractable.renderable.channels o p lives e member q chooses
  have one := sameEvent_unique tractable.scopes same
    (sameEvent_of_label tractable.scopes tractable.ranges lives member chooses channels label signals)
  generalize sync : e.sync = reference at label
  cases label with
  | internal => exact absurd one.symm (tauEvent_ne_eventOf noCsp)
  | @sync kind' channel written s' symbol base =>
  obtain ⟨noCsp', _, c, indices, denotes⟩ := channels kind' channel sync
  obtain ⟨rfl, rfl⟩ := eventOf_inj noCsp noCsp' one
  have use : Uses env tas.processes kind s written c :=
    ⟨_, q, e, channel, visit, sync, symbol, resolves_of_denotes denotes, base⟩
  obtain ⟨_, cell, named', rfl⟩ := cell_of_use tractable use
  exact ⟨written, cell, named',
    ⟨_, q, e, channel, visit, sync, symbol, base, lives_of_names tractable named lives⟩, use⟩

variable (fresh : st.events = .empty)
  (processes : exec (translateProcesses env sysname tas) st = (.ok (), middle))

include fresh processes

/-- A process is recorded under a label exactly if an edge of its instance has the event. -/
theorem recorded_iff (noCsp : kind ≠ .csp) : process ∈ (tableOf kind middle.events).procs s ↔
    ∃ o signal, Names env tas o process ∧ SameEvent env tas signal (eventOf kind s) ∧
      Offers A env tas o signal := by
  rw [tables_exact fresh processes]
  constructor
  · rintro ⟨written, ctx, q, e, channel, visit, sync, symbol, base, rfl⟩
    obtain ⟨o, p, lives, rfl, member, chooses⟩ := (visit_iff tractable.ranges).mp visit
    obtain ⟨line, listed, printed⟩ := edge_of_visit nothing run visit
    cases printed with
    | line src dst _ _ =>
    have label : EdgeLabel env (prefixOf env p o.2) q e.sync (eventOf kind s) := by
      rw [sync]
      exact .sync symbol base
    have channels := tractable.renderable.channels o p lives e member q chooses
    obtain ⟨signal, signals⟩ := exists_signal (o := o) channels label
    obtain ⟨f, guard⟩ := (tractable.renderable.guards o p lives e member q chooses).means
    obtain ⟨F, update⟩ := (tractable.renderable.updates o p lives e member q chooses).executes
    exact ⟨o, signal, ⟨p, lives, rfl⟩,
      sameEvent_of_label tractable.scopes tractable.ranges lives member chooses channels label signals,
      _, _, .edge lives member chooses src dst signals guard update⟩
  · rintro ⟨o, signal, named, same, offers⟩
    obtain ⟨written, _, _, used, _⟩ := use_of_offers tractable nothing run noCsp named same offers
    exact ⟨written, used⟩

omit nothing run in
/-- No label is shared. -/
theorem sharedVectors_eq_nil : sharedVectors middle.events = [] := by
  unfold sharedVectors
  rw [List.flatMap_eq_nil_iff]
  rintro ⟨s, procs⟩ listed
  have found := Std.TreeMap.mem_toList_iff_getElem?_eq_some.mp listed
  have empty := middle.events.csp.inhabited s procs found
  obtain ⟨process, inside⟩ : ∃ process, process ∈ procs := by
    by_contra none
    push Not at none
    have nil := Std.TreeSet.isEmpty_iff_forall_not_mem.mpr none
    rw [nil] at empty
    cases empty
  have recorded : process ∈ (tableOf .csp middle.events).procs s :=
    ProcTable.mem_procs_iff.mpr ⟨procs, found, inside⟩
  obtain ⟨written, ctx, q, e, channel, visit, sync, symbol, base, _⟩ :=
    (tables_exact fresh processes .csp s process).mp recorded
  obtain ⟨o, p, lives, rfl, member, chooses⟩ := (visit_iff tractable.ranges).mp visit
  exact absurd rfl (tractable.renderable.channels o p lives e member q chooses .csp channel sync).1

end

end

end Utot
