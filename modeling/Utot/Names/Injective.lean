import Utot.Names.Output

/-!
# Generated names

Different entities of one name space get different identifiers, unless `_`
confuses two declared names or the model declares a name the translator keeps
for itself; and a translation declares nothing but identifiers of entities.
-/

namespace Utot

open Utap Library Tchecker

/-- In a translation without error every declared identifier is the one of a
process instance, a variable or clock cell, an event of a channel cell, or of
`Stuck`, `tau` or `nosync`; and two of these share an identifier within one name
space only if the names behind them collide. -/
theorem identifiers_injective {env : Env} {sysname : String} {tas : TimedAutomataSystem}
    {st' : TrState} (scopes : Scoped env tas)
    (run : exec (translateSystem env sysname tas) .initial = (.ok (), st')) :
    (∀ l ∈ st'.lines, ∀ space id, declares l = some (space, id) → Known env tas space id) ∧
      ∀ a b : Entity, ∀ id, a.space = b.space → Identifies env tas a id → Identifies env tas b id →
        a = b ∨ Collision env a b ∨ Collision env b a := by
  constructor
  · intro l inside space id declared
    have within := keepsKnown_system scopes sysname TrState.initial
    rw [run] at within
    rcases within l inside with before | known
    · cases before
    · exact known (space, id) declared
  · intro a b id space first second
    exact identifies_same scopes.toDistinctSymbols first second space

/-! ## A global and a local clock -/

/-- A clock of the given name, and a process `P` with a clock `x` of its own. -/
def clocksEnv (global : String) : Env :=
  envOfSymbols [⟨"t(0)", .prim .clock, false, some ⟨none⟩⟩, ⟨global, .prim .clock, false, some ⟨none⟩⟩,
    ⟨"P", .prim .unknown, false, none⟩, ⟨"x", .prim .clock, true, some ⟨none⟩⟩,
    ⟨"A", .prim .location, true, none⟩]

def clocksProcess : Instance :=
  { uid := 2, parameters := [], mapping := ∅, unbound := 0
    templ := { vars := [3], iodecl := [], functions := [], init := 4, states := [⟨4, none⟩], edges := [] } }

def clocksModel : TimedAutomataSystem := ⟨⟨[0, 1], [], []⟩, [clocksProcess]⟩

theorem scoped_clocksModel (global : String) : Scoped (clocksEnv global) clocksModel := by
  constructor
  · constructor
    · intro p listed p' listed' _
      rw [List.mem_singleton.mp listed, List.mem_singleton.mp listed']
    · decide
  · intro c declared
    rcases List.mem_pair.mp declared with rfl | rfl <;> rfl
  · intro p listed c declared
    rw [List.mem_singleton.mp listed] at declared
    rw [List.mem_singleton.mp declared]
    rfl
  · decide
  · decide
  · intro p listed e member
    rw [List.mem_singleton.mp listed] at member
    cases member
  · decide

theorem named_clocks (global : String) :
    Named (clocksEnv global) clocksModel ⟨none, 1, []⟩ global ∧
      Named (clocksEnv global) clocksModel ⟨some (2, []), 3, []⟩ "P_x" := by
  constructor
  · exact .inGlobals (List.mem_cons_of_mem _ List.mem_cons_self) []
  · have listed : clocksProcess ∈ clocksModel.processes := List.mem_cons_self
    have count : ([] : List Int).length = (openParameters clocksProcess).length := rfl
    exact .inInstance listed count List.mem_cons_self []

/-- A clock `y` and the clock `x` of `P` have identifiers of their own. -/
theorem identifiers_injective_clocks :
    ∃ st', exec (translateSystem (clocksEnv "y") "S" clocksModel) .initial = (.ok (), st') ∧
      Line.clock "P_x" 1 ∈ st'.lines ∧
      (∀ l ∈ st'.lines, ∀ space id, declares l = some (space, id) →
        Known (clocksEnv "y") clocksModel space id) ∧
      ∀ a : Entity, a.space = .variables → Identifies (clocksEnv "y") clocksModel a "P_x" →
        a = .cell ⟨some (2, []), 3, []⟩ ∨
          Collision (clocksEnv "y") a (.cell ⟨some (2, []), 3, []⟩) ∨
          Collision (clocksEnv "y") (.cell ⟨some (2, []), 3, []⟩) a := by
  have run : exec (translateSystem (clocksEnv "y") "S" clocksModel) .initial = (.ok (), _) := rfl
  obtain ⟨known, injective⟩ := identifiers_injective (scoped_clocksModel "y") run
  refine ⟨_, run, by decide, known, fun a space identified => ?_⟩
  exact injective a _ _ space identified (.cell (named_clocks "y").2)

/-- A clock `P_x` and the clock `x` of `P` are both declared as `P_x`. -/
theorem shared_identifier :
    ∃ st', exec (translateSystem (clocksEnv "P_x") "S" clocksModel) .initial = (.ok (), st') ∧
      st'.lines.count (.clock "P_x" 1) = 2 ∧
      ¬ ∀ a b : Entity, ∀ id, a.space = b.space → Identifies (clocksEnv "P_x") clocksModel a id →
        Identifies (clocksEnv "P_x") clocksModel b id → a = b := by
  refine ⟨_, rfl, by decide, fun injective => ?_⟩
  have same := injective (.cell ⟨none, 1, []⟩) (.cell ⟨some (2, []), 3, []⟩) "P_x" rfl
    (.cell (named_clocks "P_x").1) (.cell (named_clocks "P_x").2)
  exact absurd same (by decide)

end Utot
