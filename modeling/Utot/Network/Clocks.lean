import Utot.Meaning.Declared
import Utot.Network.Instances
import Utot.Network.Stores

/-!
# Clocks on both sides

Time changes the same cells on both sides: every cell of a clock that is declared
has a `clock` line, and no other cell has one.
-/

namespace Utot

open Utap Uppaal Library Tchecker

/-! ## Lines of a run -/

section

variable {env : Env} {sysname : String} {tas : TimedAutomataSystem} {st st' : TrState} {p : Instance}
  {o : Owner} {c : Symbol}

/-- What the type checker promises about the types of the declared variables, and that
the evaluator misreads none of their bounds. -/
structure DeclarationsTyped (env : Env) (tas : TimedAutomataSystem) : Prop where
  types : ∀ p ∈ tas.processes, ∀ c ∈ scopeOf tas p, Numeric false (env.getType c) ∨
    Clocks (env.getType c) ∨ ChannelType (env.getType c)
  bounds : ∀ o p, Lives env tas o p → ∀ c ∈ scopeOf tas p, ∀ x ∈ readBounds (env.getType c),
    Knowable env (declarer env (instanceWith p o.2) c) x

theorem DeclarationsTyped.clocks (typed : DeclarationsTyped env tas) (listed : p ∈ tas.processes)
    (inside : c ∈ scopeOf tas p) (isClock : (env.getType c).stripArray.isClock = true) :
    Clocks (env.getType c) := by
  rcases typed.types p listed c inside with numeric | clocks | channels
  · rw [noClock_of_numeric numeric] at isClock
    cases isClock
  · exact clocks
  · rw [noClock_of_channelType channels] at isClock
    cases isClock

/-- The lines of the declaration of something an instance sees. -/
abbrev LinesOf (env : Env) (p : Instance) (o : Owner) (c : Symbol) : List Line → Prop :=
  DeclarationLines env (declarer env (instanceWith p o.2) c) (symbolName env (prefixOf env p o.2) c)
    (stripLabels (env.getType c)) (env.initialiser c)

variable (run : exec (translateSystem env sysname tas) st = (.ok (), st'))

include run

/-- The lines of what an instance sees are in the output. -/
theorem declared_in_scope (scopes : Scoped env tas) (ranges : RangesKnown env tas) (lives : Lives env tas o p)
    (inside : c ∈ scopeOf tas p) : HasLines (LinesOf env p o c) st' := by
  unfold LinesOf
  rcases mem_scopeOf.mp inside with global | inTemplate
  · have noParent := scopes.globals c (List.mem_of_mem_tail global)
    rw [declarer, symbolName, noParent]
    exact global_lines run global
  · have parent := scopes.locals p lives.listed c inTemplate
    rw [declarer, symbolName, if_pos parent, if_pos parent]
    exact local_lines run lives.listed (instanceOf_lives ranges lives) inTemplate

/-- A line named after a cell an instance sees belongs to the declaration of the cell. -/
theorem line_in_scope (scopes : Scoped env tas) (apart : NamesUnconfused env tas) (nothing : st.lines = [])
    (lives : Lives env tas o p) (inside : c ∈ scopeOf tas p) {indices : List Int} {l : Line} {t : Ty}
    (listed : l ∈ st'.lines)
    (output : CellOutput (cellName (symbolName env (prefixOf env p o.2) c) indices.reverse) t l) :
    ∃ ls, LinesOf env p o c ls ∧ l ∈ ls := by
  have cell := named_of_scope scopes lives inside indices
  have here {c' : Symbol} {p' : Option Instance} {name : String} {ls : List Line}
      (printed : DeclarationLines env p' name (stripLabels (env.getType c')) (env.initialiser c') ls)
      (member : l ∈ ls) : ∃ indices' : List Int,
        cellName name indices'.reverse = cellName (symbolName env (prefixOf env p o.2) c) indices.reverse := by
    obtain ⟨indices', output'⟩ := mem_declarationLines printed member
    exact ⟨indices', output'.name_eq output⟩
  rcases exists_declaration nothing run listed output.declared with
    ⟨c', global, ls, printed, member⟩ | ⟨i, inst, c', inTemplate, ls, printed, member⟩
  · obtain ⟨indices', names⟩ := here printed member
    rw [← names] at cell
    have same := apart.cell_eq scopes.toDistinctSymbols cell
      (.inGlobals (List.mem_of_mem_tail global) indices')
    obtain rfl : c = c' := congrArg Cell.symbol same
    refine ⟨ls, ?_, member⟩
    unfold LinesOf
    rw [declarer, symbolName, scopes.globals c (List.mem_of_mem_tail global)]
    exact printed
  · obtain ⟨q, process, one⟩ := List.mem_flatMap.mp inst
    obtain ⟨values, inRanges, rfl⟩ := List.mem_map.mp one
    obtain ⟨indices', names⟩ := here printed member
    rw [← names] at cell
    have same := apart.cell_eq scopes.toDistinctSymbols cell
      (.inInstance process (mem_products.mp inRanges).length_eq.symm inTemplate indices')
    obtain rfl : c = c' := congrArg Cell.symbol same
    have parent := scopes.locals q process c inTemplate
    have owners := congrArg Cell.owner same
    simp only [cellAt, parent, if_true, Option.some.injEq] at owners
    subst owners
    obtain rfl := scopes.byUid p lives.listed q process lives.uid.symm
    refine ⟨ls, ?_, member⟩
    unfold LinesOf
    rw [declarer, symbolName, if_pos parent, if_pos parent]
    exact printed

end

/-! ## Time -/

section

variable {V T : Type} {A : Arithmetic V} {env : Env} {sysname : String} {tas : TimedAutomataSystem}
  {st st' : TrState} {p : Instance} {o : Owner} {c : Symbol} {S : Store V} {τ : Valuation V}

theorem noConstant_of_clocks {t : Ty} (clocks : Clocks t) : t.isConstant = false := by
  induction clocks with
  | clock => rfl
  | label _ ih => exact ih
  | array _ ih => exact ih

variable (scopes : Scoped env tas) (apart : NamesUnconfused env tas) (ranges : RangesKnown env tas)
  (typed : DeclarationsTyped env tas) (nothing : st.lines = [])
  (run : exec (translateSystem env sysname tas) st = (.ok (), st'))

include scopes apart typed nothing run

/-- What an instance sees is named like a clock only if it is one. -/
theorem clocks_of_clockNamed (lives : Lives env tas o p) (inside : c ∈ scopeOf tas p) {indices : List Int}
    (clock : ClockNamed st'.lines
      (cellName (symbolName env (prefixOf env p o.2) c) indices.reverse)) : Clocks (env.getType c) := by
  obtain ⟨size, listed⟩ := clock
  have output : CellOutput (cellName (symbolName env (prefixOf env p o.2) c) indices.reverse) (.prim .clock)
      (.clock _ size) := .clock rfl
  obtain ⟨ls, printed, member⟩ := line_in_scope run scopes apart nothing lives inside listed output
  obtain ⟨indices', output'⟩ := mem_declarationLines printed member
  have isClock := output'.isClock
  rw [stripArray_stripLabels] at isClock
  exact typed.clocks lives.listed inside isClock

include ranges

omit apart nothing in
theorem clock_listed (lives : Lives env tas o p) (inside : c ∈ scopeOf tas p) (clocks : Clocks (env.getType c)) :
    ∃ ls, Block env (declarer env (instanceWith p o.2) c) (symbolName env (prefixOf env p o.2) c) c ls ∧
      ∀ id size n, ∀ l ∈ ls, StartLine (env.getType c) id size n l → ClockNamed st'.lines id := by
  obtain ⟨ls, printed, listed⟩ := declared_in_scope run scopes ranges lives inside
  refine ⟨ls, block_of_clocks clocks (typed.bounds o p lives c inside) printed, ?_⟩
  intro id size n l member start
  cases start with
  | clock => exact ⟨size, listed _ member⟩
  | intvar numeric => exact absurd clocks (not_clocks_of_numeric numeric)

/-- The same time passes for the data of both sides. -/
theorem SameData.pass (same : SameData A env tas S τ) (advance : T → V → V) (t : T) :
    SameData A env tas (Uppaal.pass env advance t S) (Tchecker.pass st'.lines advance t τ) := by
  constructor
  · intro o p lives
    refine givesConstants_of_same (same.constants o p lives) fun c constant indices => ?_
    refine view_pass_other (fun clocks => ?_) advance t S indices
    rw [noConstant_of_clocks clocks] at constant
    cases constant
  · intro o p lives
    have carries := same.carries o p lives
    constructor
    · intro c inside split indices
      have before := carries.cells c inside split indices
      unfold Tchecker.pass
      dsimp only
      by_cases clocks : Clocks (env.getType c)
      · rw [view_pass_clock clocks, ← before]
        cases value : view env o S c indices with
        | none =>
            rw [value] at before
            rw [before, Option.map_none, ite_self]
        | some v =>
            have declared := same.clocks o p lives c inside clocks indices
              (by rw [value]; exact Option.some_ne_none v)
            obtain ⟨ls, block, named⟩ := clock_listed scopes ranges typed run lives inside clocks
            obtain ⟨l, member, m, start⟩ := block.cell_listed split (.clock clocks declared)
            rw [if_pos (named _ _ _ l member start)]
      · rw [view_pass_other clocks, ← before, if_neg]
        exact fun clock => clocks (clocks_of_clockNamed scopes apart typed nothing run lives inside clock)
    · intro c inside line min max bounds i
      have before := carries.lines c inside line min max bounds i
      unfold Tchecker.pass
      dsimp only
      by_cases clocks : Clocks (env.getType c)
      · obtain ⟨ls, block, named⟩ := clock_listed scopes ranges typed run lives inside clocks
        cases block with
        | line _ _ start =>
            rw [view_pass_clock clocks, ← before, if_pos (named _ _ _ _ (List.mem_singleton_self _) start)]
        | cells split =>
            rw [line] at split
            cases split
        | nothing channels =>
            have isClock := isClock_of_clocks clocks
            rw [noClock_of_channelType channels] at isClock
            cases isClock
      · have unnamed : ¬ ClockNamed st'.lines
            (cellName (symbolName env (prefixOf env p o.2) c) ([] : List Int).reverse) := fun clock =>
          clocks (clocks_of_clockNamed scopes apart typed nothing run lives inside clock)
        rw [view_pass_other clocks, ← before]
        exact if_neg unnamed
  · intro o p lives c inside clocks indices some'
    refine same.clocks o p lives c inside clocks indices fun none' => some' ?_
    rw [view_pass_clock clocks, none', Option.map_none]

end

end Utot
