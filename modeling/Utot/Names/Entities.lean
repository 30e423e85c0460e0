import Utot.Names.Cells
import Utot.Translate.Edges

/-!
# Identifiers of the output

What gets an identifier of its own in the output: the instances of processes and
`Stuck`; variables and clocks; the events of channel cells, `tau` and `nosync`.
Two entities of one name space share an identifier only if two declared names
collide.
-/

namespace Utot

open Utap Library Tchecker

/-- The name spaces of a TChecker model; clocks and integer variables share one. -/
inductive NameSpace where
  | processes | events | variables
  deriving DecidableEq, Repr

/-- What is declared in the output. -/
inductive Entity where
  | process (uid : Symbol) (values : List Int)
  | stuck
  | cell (cell : Cell)
  | event (kind : SyncKind) (cell : Cell)
  | tau
  | nosync
  deriving DecidableEq, Repr

def Entity.space : Entity → NameSpace
  | .process _ _ => .processes
  | .stuck => .processes
  | .cell _ => .variables
  | .event _ _ => .events
  | .tau => .events
  | .nosync => .events

/-- The identifier the translator gives an entity. -/
inductive Identifies (env : Env) (tas : TimedAutomataSystem) : Entity → String → Prop where
  | process {p : Instance} (listed : p ∈ tas.processes) {values : List Int}
      (count : values.length = (openParameters p).length) :
      Identifies env tas (.process p.uid values) (stringOf (prefixOf env p values))
  | stuck : Identifies env tas .stuck stuckProcess
  | cell {cell : Cell} {s : String} (named : Named env tas cell s) : Identifies env tas (.cell cell) s
  | event {cell : Cell} {s : String} (named : Named env tas cell s) (kind : SyncKind) :
      Identifies env tas (.event kind cell) (eventOf kind s)
  | tau : Identifies env tas .tau tauEvent
  | nosync : Identifies env tas .nosync noSyncEvent

/-- The names behind two entities collide: `_` confuses two declared names, or
the model declares a name the translator keeps for itself. -/
inductive Collision (env : Env) : Entity → Entity → Prop where
  | processes {uid uid' : Symbol} (differ : uid ≠ uid') (confused : Confused env uid uid')
      (values values' : List Int) : Collision env (.process uid values) (.process uid' values')
  | cells {cell cell' : Cell} (confused : CellsConfused env cell cell') :
      Collision env (.cell cell) (.cell cell')
  | events {cell cell' : Cell} (confused : CellsConfused env cell cell') (kind kind' : SyncKind) :
      Collision env (.event kind cell) (.event kind' cell')
  | stuck {uid : Symbol} (reserved : env.getName uid = stuckProcess) :
      Collision env .stuck (.process uid [])
  | tau {c : Symbol} (reserved : env.getName c = tauEvent) :
      Collision env .tau (.event .csp ⟨none, c, []⟩)
  | nosync {c : Symbol} (reserved : env.getName c = noSyncEvent) :
      Collision env .nosync (.event .csp ⟨none, c, []⟩)

section

variable {env : Env} {tas : TimedAutomataSystem}

/-! ## Processes -/

theorem toList_process (p : Instance) (values : List Int) :
    (stringOf (prefixOf env p values)).toList =
      (env.getName p.uid).toList ++ assignmentsText env (openParameters p) values :=
  toList_stringOf _ _

/-- Instances with one identifier are the same, or the names of their processes
are confused. -/
theorem process_same (distinct : DistinctSymbols tas) {p p' : Instance} (listed : p ∈ tas.processes)
    (listed' : p' ∈ tas.processes) {values values' : List Int}
    (count : values.length = (openParameters p).length)
    (count' : values'.length = (openParameters p').length)
    (same : stringOf (prefixOf env p values) = stringOf (prefixOf env p' values')) :
    p.uid = p'.uid ∧ values = values' ∨ p.uid ≠ p'.uid ∧ Confused env p.uid p'.uid := by
  have text := congrArg String.toList same
  rw [toList_process, toList_process] at text
  by_cases uids : p.uid = p'.uid
  · have one := distinct.byUid p listed p' listed' uids
    subst one
    have rest := List.append_cancel_left text
    rw [← List.append_nil (assignmentsText _ _ values),
      ← List.append_nil (assignmentsText _ _ values')] at rest
    exact .inl ⟨rfl, (assignmentsText_injective count count' isTail_nil isTail_nil rest).1⟩
  · exact .inr ⟨uids, fun apart => apart.append_ne (isTail_joined _) (isTail_joined _) text⟩

/-- A word without `_` is only spelt by a root with nothing behind it. -/
theorem root_of_word {root tail word : List Char} (spelt : root ++ tail = word)
    (isTail : IsTail '_' tail) (free : '_' ∉ word) : root = word ∧ tail = [] := by
  rcases isTail with rfl | ⟨rest, rfl⟩
  · rw [List.append_nil] at spelt
    exact ⟨spelt, rfl⟩
  · rw [← spelt] at free
    exact absurd (List.mem_append_right _ List.mem_cons_self) free

/-- Only a process of that name without open parameters is called `Stuck`. -/
theorem process_stuck {p : Instance} {values : List Int}
    (count : values.length = (openParameters p).length)
    (same : stringOf (prefixOf env p values) = stuckProcess) :
    env.getName p.uid = stuckProcess ∧ values = [] := by
  have text := congrArg String.toList same
  rw [toList_process] at text
  obtain ⟨root, nothing⟩ := root_of_word text (isTail_joined _) (by decide)
  refine ⟨String.toList_inj.mp root, ?_⟩
  cases values with
  | nil => rfl
  | cons i rest =>
      unfold assignmentsText at nothing
      cases names : openParameters p with
      | nil =>
          rw [names] at count
          cases count
      | cons name names' =>
          rw [names] at nothing
          cases nothing

/-! ## Events -/

/-- The parts an event has behind its label. -/
def eventParts : SyncKind → List Part
  | .bang => [.emit]
  | .que => [.recv]
  | .csp => []

theorem toList_eventOf (kind : SyncKind) (s : String) :
    (eventOf kind s).toList = s.toList ++ partsText (eventParts kind) := by
  cases kind with
  | bang => exact String.toList_append
  | que => exact String.toList_append
  | csp => exact (List.append_nil _).symm

/-- The end of an event can be read back behind indices. -/
theorem eventParts_injective {is js : List Int} {kind kind' : SyncKind}
    (same : is.map Part.index ++ eventParts kind = js.map Part.index ++ eventParts kind') :
    kind = kind' := by
  induction is generalizing js with
  | nil =>
      cases js with
      | nil => cases kind <;> cases kind' <;> first | rfl | cases same
      | cons j js => cases kind <;> cases same
  | cons i is ih =>
      cases js with
      | nil => cases kind' <;> cases same
      | cons j js => exact ih (List.tail_eq_of_cons_eq same)

theorem event_same (distinct : DistinctSymbols tas) {cell cell' : Cell} {s s' : String}
    (named : Named env tas cell s) (named' : Named env tas cell' s') {kind kind' : SyncKind}
    (same : eventOf kind s = eventOf kind' s') :
    kind = kind' ∧ cell = cell' ∨ CellsConfused env cell cell' := by
  have text := congrArg String.toList same
  rw [toList_eventOf, toList_eventOf] at text
  rcases named.sameBehind distinct named' text with ⟨owners, symbols, parts⟩ | confused
  · have kinds := eventParts_injective parts
    subst kinds
    exact .inl ⟨rfl, Cell.eq_of_indices owners symbols parts⟩
  · exact .inr confused

/-- Only the CSP label of a global channel of that name is a word without `_`. -/
theorem event_word {cell : Cell} {s word : String} (named : Named env tas cell s) {kind : SyncKind}
    (same : eventOf kind s = word) (free : '_' ∉ word.toList) :
    env.getName cell.symbol = word ∧ kind = .csp ∧ cell = ⟨none, cell.symbol, []⟩ := by
  have text := congrArg String.toList same
  rw [toList_eventOf] at text
  cases named with
  | @inGlobals c declared indices =>
      rw [toList_inGlobals, List.append_assoc, ← partsText_append] at text
      obtain ⟨root, nothing⟩ := root_of_word text (isTail_partsText _) free
      cases indices with
      | nil => cases kind <;> first | exact ⟨String.toList_inj.mp root, rfl, rfl⟩ | cases nothing
      | cons i rest => cases nothing
  | @inInstance p listed values count c declared indices =>
      rw [toList_inInstance] at text
      apply absurd _ free
      rw [← text]
      simp

/-! ## All entities -/

/-- Two entities of one name space with the same identifier are the same entity,
or the names behind them collide. -/
theorem identifies_same (distinct : DistinctSymbols tas) {a b : Entity} {id : String}
    (first : Identifies env tas a id) (second : Identifies env tas b id)
    (space : a.space = b.space) : a = b ∨ Collision env a b ∨ Collision env b a := by
  cases first with
  | @process p listed values count =>
      generalize text : stringOf (prefixOf env p values) = id at second
      cases second with
      | @process p' listed' values' count' =>
          rcases process_same distinct listed listed' count count' text with
            ⟨uids, rfl⟩ | ⟨differ, confused⟩
          · exact .inl (by rw [uids])
          · exact .inr (.inl (.processes differ confused values values'))
      | stuck =>
          obtain ⟨reserved, rfl⟩ := process_stuck count text
          exact .inr (.inr (.stuck reserved))
      | _ => cases space
  | stuck =>
      generalize text : stuckProcess = id at second
      cases second with
      | @process p listed values count =>
          obtain ⟨reserved, rfl⟩ := process_stuck count text.symm
          exact .inr (.inl (.stuck reserved))
      | stuck => exact .inl rfl
      | _ => cases space
  | cell named =>
      cases second with
      | cell named' =>
          rcases named.same distinct named' with rfl | confused
          · exact .inl rfl
          · exact .inr (.inl (.cells confused))
      | _ => cases space
  | @event cell s named kind =>
      generalize text : eventOf kind s = id at second
      cases second with
      | event named' kind' =>
          rcases event_same distinct named named' text with ⟨rfl, rfl⟩ | confused
          · exact .inl rfl
          · exact .inr (.inl (.events confused kind kind'))
      | tau =>
          obtain ⟨reserved, rfl, whole⟩ := event_word named text (by decide)
          rw [whole]
          exact .inr (.inr (.tau reserved))
      | nosync =>
          obtain ⟨reserved, rfl, whole⟩ := event_word named text (by decide)
          rw [whole]
          exact .inr (.inr (.nosync reserved))
      | _ => cases space
  | tau =>
      generalize text : tauEvent = id at second
      cases second with
      | event named kind =>
          obtain ⟨reserved, rfl, whole⟩ := event_word named text.symm (by decide)
          rw [whole]
          exact .inr (.inl (.tau reserved))
      | tau => exact .inl rfl
      | nosync => exact absurd text (by decide)
      | _ => cases space
  | nosync =>
      generalize text : noSyncEvent = id at second
      cases second with
      | event named kind =>
          obtain ⟨reserved, rfl, whole⟩ := event_word named text.symm (by decide)
          rw [whole]
          exact .inr (.inl (.nosync reserved))
      | tau => exact absurd text (by decide)
      | nosync => exact .inl rfl
      | _ => cases space

end

end Utot
