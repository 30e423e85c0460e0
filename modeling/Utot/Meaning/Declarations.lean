import Utot.Meaning.Declared

/-!
# The declaration pass

Every declaration of a run whose bounds and entries are read right adds the lines
that give its variable its range and its initial value, or it is one of the
exceptions: an array of TChecker without initialiser whose cells have a range that
ends in zero, an initialiser with too many entries, a constant outside its range, a
clock with an initialiser.
-/

namespace Utot

open Utap Uppaal Library Tchecker

/-- The lines of a declaration give every cell its range and initial value, and a
clock has no initial value. -/
def GivesCells (env : Env) (p : Option Instance) (ctx : ContextPrefix) (s : Symbol)
    (ls : List Line) : Prop :=
  (Numeric false (env.getType s) → CellsDeclared env p (addPrefix ctx (env.getName s))
    (env.getType s) (env.initialiser s) ls) ∧
  (Clocks (env.getType s) → env.initialiser s = none)

/-- The declaration is none of the exceptions. -/
def Unexceptional (env : Env) (p : Option Instance) (s : Symbol) : Prop :=
  (Numeric false (env.getType s) → Regular env p (env.getType s) (env.initialiser s)) ∧
  (Clocks (env.getType s) → env.initialiser s = none)

section

variable {env : Env} {p : Option Instance} {ctx : ContextPrefix} {decl : Declarations}

/-- In a run that returns, exactly the declarations that are none of the exceptions
add lines that give their cells their ranges and initial values, among those whose
bounds and entries the evaluator does not misread. -/
theorem declarations_give_cells
    (accepted : ∀ s ∈ visitedVariables p decl, AcceptedDeclaration env p (env.getType s) (env.initialiser s))
    {st st' : TrState} (run : exec (translateDeclarations env p ctx decl) st = (.ok (), st')) :
    Rounds (fun st s st' => exec (declareVariable env p ctx s) st = (.ok (), st') ∧
      ∃ ls, st'.lines = st.lines ++ ls ∧ (ReadRight env p (env.getType s) (env.initialiser s) →
        (GivesCells env p ctx s ls ↔ Unexceptional env p s))) st (visitedVariables p decl) st' := by
  refine (rounds_of_forM run).imp fun s listed st st' round => ⟨round, ?_⟩
  obtain ⟨ls, added, printed⟩ := appends_declareVariable ctx s st st' () round
  refine ⟨ls, added, fun reads => ?_⟩
  have promise := accepted s listed
  constructor
  · rintro ⟨cells, clocks⟩
    exact ⟨fun numeric => regular_of_cellsDeclared numeric promise reads printed (cells numeric), clocks⟩
  · rintro ⟨regular, clocks⟩
    exact ⟨fun numeric => cellsDeclared_of_regular numeric promise reads (regular numeric) printed, clocks⟩

end

/-! ## Ranges that end in zero -/

/-- `int[lower,upper]`. -/
def boundedType (lower upper : Int) : Ty :=
  .range (.prim .int) (.constant lower (.prim .int)) (.constant upper (.prim .int))

/-- `int[lower,upper] a[2];` behind the variable `t(0)`. -/
def pairEnv (lower upper : Int) : Env :=
  envOfSymbols [⟨"t(0)", .prim .clock, false, some ⟨none⟩⟩,
    ⟨"a", .array (boundedType lower upper) (boundedType 0 1), false, some ⟨none⟩⟩]

def pairDeclarations : Declarations := ⟨[0, 1], [], []⟩

/-- The lines the declaration pass adds for `int[lower,upper] a[2];`. -/
def pairRun (lower upper : Int) : TrState :=
  (exec (translateDeclarations (pairEnv lower upper) none [] pairDeclarations) .initial).2

section

variable {lower upper : Int} (least : IsInt lower) (greatest : IsInt upper)

include least greatest

theorem known_pair : ∀ x ∈ boundsOf ((pairEnv lower upper).getType 1), Knowable (pairEnv lower upper) none x := by
  intro x bound
  rcases List.mem_cons.mp bound with rfl | bound
  · exact knowable_constant ⟨by decide, by decide⟩
  · rcases List.mem_cons.mp bound with rfl | bound
    · exact knowable_constant ⟨by decide, by decide⟩
    · rcases List.mem_cons.mp bound with rfl | bound
      · exact knowable_constant least
      · cases List.mem_singleton.mp bound
        exact knowable_constant greatest

theorem accepted_pair : ∀ s ∈ visitedVariables none pairDeclarations,
    AcceptedDeclaration (pairEnv lower upper) none ((pairEnv lower upper).getType s)
      ((pairEnv lower upper).initialiser s) := by
  intro s listed
  cases List.mem_singleton.mp listed
  exact ⟨fun x bound => (known_pair least greatest x bound).toComputable,
    fun e given => (by cases given), fun _ _ _ given => (by cases given)⟩

theorem readRight_pair : ReadRight (pairEnv lower upper) none ((pairEnv lower upper).getType 1)
    ((pairEnv lower upper).initialiser 1) where
  bounds x read := (known_pair least greatest x (boundsOf_of_readBounds read)).right
  entries e ranges indices x given := by cases given
  named s t' given := by cases given

end

theorem declarations_give_cells_pair :
    Rounds (fun st s st' => exec (declareVariable (pairEnv (-5) 5) none [] s) st = (.ok (), st') ∧
      ∃ ls, st'.lines = st.lines ++ ls ∧
        (GivesCells (pairEnv (-5) 5) none [] s ls ↔ Unexceptional (pairEnv (-5) 5) none s))
      .initial (visitedVariables none pairDeclarations) (pairRun (-5) 5) := by
  have least : IsInt (-5) := ⟨by decide, by decide⟩
  have greatest : IsInt 5 := ⟨by decide, by decide⟩
  have run : exec (translateDeclarations (pairEnv (-5) 5) none [] pairDeclarations) .initial =
      (.ok (), pairRun (-5) 5) := Prod.ext rfl rfl
  have rounds := declarations_give_cells (accepted_pair least greatest) run
  refine rounds.imp fun s listed st st' ⟨round, ls, added, same⟩ => ⟨round, ls, added, same ?_⟩
  cases List.mem_singleton.mp listed
  exact readRight_pair least greatest

/-- `int[-5,0] a[2];` is accepted, its range contains zero, and the cells start at
the lower bound. -/
theorem zero_default_is_lower_bound :
    exec (translateDeclarations (pairEnv (-5) 0) none [] pairDeclarations) .initial =
      (.ok (), pairRun (-5) 0) ∧
    (pairRun (-5) 0).lines = [.intvar (-5) 0 (-5) "a" 2] ∧
    ¬ GivesCells (pairEnv (-5) 0) none [] 1 [.intvar (-5) 0 (-5) "a" 2] := by
  have numeric : Numeric false ((pairEnv (-5) 0).getType 1) := .array .bounded
  refine ⟨Prod.ext rfl rfl, rfl, fun gives => ?_⟩
  have least : IsInt (-5) := ⟨by decide, by decide⟩
  have greatest : IsInt 0 := ⟨by decide, by decide⟩
  have promise := accepted_pair least greatest 1 (List.mem_singleton_self _)
  have round : exec (declareVariable (pairEnv (-5) 0) none [] 1) .initial = (.ok (), pairRun (-5) 0) :=
    Prod.ext rfl rfl
  obtain ⟨ls, added, printed⟩ := appends_declareVariable [] 1 TrState.initial _ () round
  have same : ls = [.intvar (-5) 0 (-5) "a" 2] := added.symm
  rw [same] at printed
  have regular := regular_of_cellsDeclared numeric promise (readRight_pair least greatest) printed (gives.1 numeric)
  have bound := regular.zero (-5) rfl rfl (.range (.integer rfl) (.integer rfl))
  exact absurd bound (by decide)

end Utot
