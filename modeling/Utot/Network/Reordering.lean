import Utot.Network.Preservation
import Utot.Run.Similar
import Utot.Run.Superposed

/-!
# The order of the processes

The order in which the system line names the processes decides about the order
of the lines of the output only: the same lines are written, and the same
vectors in the same order.
-/

namespace Utot

open Utap Library Tchecker

section

variable {env : Env} {sysname : String} {tas tas' : TimedAutomataSystem} {st st' middle middle' : TrState}

/-- The labels of the IO sections are left alone. -/
def allowedFrame : Frame GlobalEvents where
  rel events events' := events'.allowedCsp = events.allowedCsp
  refl _ := rfl
  trans first second := second.trans first

theorem processes_allowed (processes : List Instance) :
    Keeps (tablesFrame allowedFrame) (processes.forM (sTranslateProcess env)) := by
  refine Keeps.forM fun p _ => process_keeps p (sTranslateEdge_within (fun _ _ _ => rfl) ?_)
  intro events kind s process
  cases kind <;> rfl

/-- Behind the same first part the same holds. -/
theorem exec_behind {α : Type} {m : Tr α} {f g : α → Tr Unit} {Q : TrState → TrState → Prop}
    (next : ∀ a s t, exec (f a) s = (.ok (), t) → ∃ t', exec (g a) s = (.ok (), t') ∧ Q t t') {s t : TrState}
    (run : exec (m >>= f) s = (.ok (), t)) : ∃ t', exec (m >>= g) s = (.ok (), t') ∧ Q t t' := by
  rcases first : exec m s with ⟨_ | a, s₁⟩
  · rw [exec_bind_error first] at run
    cases run
  · rw [exec_bind_ok first] at run ⊢
    exact next a s₁ t run

/-- The same has been added, in whatever order. -/
def SameAdded (st st' : TrState) : Prop :=
  account st = account st' ∧ st.events.allowedCsp = st'.events.allowedCsp

variable (globals : tas'.globals = tas.globals) (perm : tas.processes.Perm tas'.processes)

include globals perm

theorem processes_permuted (run : exec (translateProcesses env sysname tas) st = (.ok (), middle)) :
    ∃ middle', exec (translateProcesses env sysname tas') st = (.ok (), middle') ∧ SameAdded middle middle' := by
  unfold translateProcesses
  rw [globals]
  refine exec_behind (Q := SameAdded) (fun _ _ _ run => ?_) run
  refine exec_behind (Q := SameAdded) (fun _ _ _ run => ?_) run
  refine exec_behind (Q := SameAdded) (fun _ s t run => ?_) run
  obtain ⟨t', run', same⟩ :=
    forM_perm account_initial perm (fun p _ => process_superposes p) (rfl : account s = account s) run
  have kept := @processes_allowed env tas.processes s
  have kept' := @processes_allowed env tas'.processes s
  rw [run] at kept
  rw [run'] at kept'
  exact ⟨t', run', same.symm, Eq.trans kept (Eq.symm kept')⟩

omit globals in
theorem visit_permuted {ctx : ContextPrefix} {q : Instance} {e : Edge} :
    Visit env tas.processes ctx q e ↔ Visit env tas'.processes ctx q e := by
  refine exists_congr fun p => and_congr_left' perm.mem_iff

omit globals in
theorem uses_permuted {kind : SyncKind} {s : String} {written actual : Symbol} :
    Uses env tas.processes kind s written actual ↔ Uses env tas'.processes kind s written actual := by
  constructor
  · rintro ⟨ctx, q, e, channel, visit, rest⟩
    exact ⟨ctx, q, e, channel, (visit_permuted perm).mp visit, rest⟩
  · rintro ⟨ctx, q, e, channel, visit, rest⟩
    exact ⟨ctx, q, e, channel, (visit_permuted perm).mpr visit, rest⟩

omit globals in
theorem modesAgree_permuted (agree : ModesAgree env tas.processes) : ModesAgree env tas'.processes where
  classified use := agree.classified ((uses_permuted perm).mpr use)
  oneLabel use use' := agree.oneLabel ((uses_permuted perm).mpr use) ((uses_permuted perm).mpr use')
  oneMode use use' := agree.oneMode ((uses_permuted perm).mpr use) ((uses_permuted perm).mpr use')

omit globals in
/-- What the vectors are generated from is the same. -/
theorem similar_processes (nothing : st.lines = []) (fresh : st.events = .empty)
    (agree : ModesAgree env tas.processes)
    (run : exec (translateProcesses env sysname tas) st = (.ok (), middle))
    (run' : exec (translateProcesses env sysname tas') st = (.ok (), middle')) (same : SameAdded middle middle') :
    Similar (fun s => ∃ process, process ∈ middle.events.emitters.procs s)
      { middle with addStuckProcess := true } { middle' with addStuckProcess := true } := by
  obtain ⟨accounts, allowed⟩ := same
  have counts : ownCount middle = ownCount middle' := congrArg Account.own accounts
  have known (f : Fact) : Remembered middle f ↔ Remembered middle' f :=
    Set.ext_iff.mp (congrArg Account.remembered accounts) f
  have labels (id : String) : (id ∈ middle.events.labels) = (id ∈ middle'.events.labels) :=
    propext (known (.label id))
  have tau : (middle.tauGenerated = true) = (middle'.tauGenerated = true) := propext (known .tau)
  constructor
  · refine List.perm_iff_count.mpr fun l => ?_
    have equal := congrFun counts l
    have others : shared middle l = shared middle' l := by
      cases l <;> simp only [shared, labels, tau]
    unfold ownCount at equal
    rw [others] at equal
    exact Int.ofNat_inj.mp (sub_left_injective equal)
  · exact (no_vectors nothing run).trans (no_vectors nothing run').symm
  · exact fun kind s => toList_congr fun process => known (.entry kind s process)
  · intro s inhabited
    obtain ⟨process, listed⟩ := List.exists_mem_of_ne_nil _ inhabited
    exact ⟨process, Std.TreeSet.mem_toList.mp listed⟩
  · rintro s ⟨process, inside⟩
    obtain ⟨written, ⟨ctx, q, e, channel, visit, sync, symbol, labelled, _⟩⟩ :=
      (tables_exact fresh run .bang s process).mp inside
    obtain ⟨actual, resolves⟩ := resolves_of_baseLabel labelled
    have use : Uses env tas.processes .bang s written actual :=
      ⟨ctx, q, e, channel, visit, sync, symbol, resolves, labelled⟩
    exact (brodcasts_of_uses fresh run agree use).trans (brodcasts_of_uses fresh run'
      (modesAgree_permuted perm agree) ((uses_permuted perm).mp use)).symm
  · exact allowed
  · rfl

/-- Whatever the order of the processes, the translation succeeds alike, and writes the
same lines and the same list of vectors. -/
theorem order_irrelevant (nothing : st.lines = []) (fresh : st.events = .empty)
    (agree : ModesAgree env tas.processes) (run : exec (translateSystem env sysname tas) st = (.ok (), st')) :
    ∃ other, exec (translateSystem env sysname tas') st = (.ok (), other) ∧
      other.lines.Perm st'.lines ∧ vectorsOf other.lines = vectorsOf st'.lines := by
  obtain ⟨middle, shown, phases⟩ := exists_phases run
  obtain ⟨middle', run', same⟩ := processes_permuted globals perm phases.processes
  obtain ⟨shown', showing, lines, events⟩ : ∃ shown', exec (sDisplayTableOfEvents env) middle' = (.ok (), shown') ∧
      shown'.lines = middle'.lines ∧ shown'.events = middle'.events := by
    have kept := keeps_displayTable (R := shownFrame)
      (fun s level args => ⟨rfl, s.lines_message level args⟩) env middle'
    have returns : (exec (sDisplayTableOfEvents env) middle').1 = .ok () :=
      (displayTable_mute env middle' middle' (sameWritten_equivalence.refl _)).1
    exact ⟨(exec (sDisplayTableOfEvents env) middle').2, Prod.ext returns rfl, kept.2, kept.1⟩
  have similar := similar_processes perm nothing fresh agree phases.processes run' same
  have start : Similar _ { shown with addStuckProcess := true } { shown' with addStuckProcess := true } :=
    similar.congr phases.lines phases.events lines events rfl
  obtain ⟨ends, last⟩ := similar_syncVectors _ _ start
  have generated : exec sGenerateSyncVectors { shown with addStuckProcess := true } = (.ok (), st') := phases.vectors
  rw [generated] at ends last
  refine ⟨(exec sGenerateSyncVectors shown').2, ?_, last.lines.symm, last.vectors.symm⟩
  unfold translateSystem
  rw [exec_bind_ok run', exec_bind_ok showing]
  exact Prod.ext ends.symm rfl

end

/-- The relay with `Q` in front of `P`. -/
def relayTurned : TimedAutomataSystem := ⟨relayModel.globals, [relayReceiver, relaySender]⟩

theorem order_irrelevant_relay : ∃ other, exec (translateSystem relayEnv "relay" relayTurned) .initial = (.ok (), other) ∧
    other.lines.Perm relayRun.lines ∧ vectorsOf other.lines = vectorsOf relayRun.lines := by
  have globals : relayTurned.globals = relayModel.globals := rfl
  have perm : relayModel.processes.Perm relayTurned.processes := List.Perm.swap _ _ _
  have agree : ModesAgree relayEnv relayModel.processes :=
    modesAgree_of_classified tractable_relay channelsKept_relay.classified
  exact order_irrelevant globals perm rfl rfl agree run_relay

end Utot
