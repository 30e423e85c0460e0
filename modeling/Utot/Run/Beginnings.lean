import Utot.Meaning.Declared
import Utot.Run.Cells
import Utot.Run.DeclaredLines
import Utot.Run.Supported

/-!
# Initial values

A declaration prints one line for a whole array or one line for each cell, and
every line says how the cells it stands for start: clocks at zero, variables at
the value of their initialiser or at their default.
-/

namespace Utot

open Utap Uppaal Library Tchecker

/-- Types of channels and of arrays of channels. -/
inductive ChannelType : Ty → Prop where
  | channel : ChannelType (.prim .channel)
  | mode {k : PrefixKind} {t : Ty} (listed : k = .broadcast ∨ k = .urgent) (inside : ChannelType t) :
      ChannelType (.pre k t)
  | label {name : String} {t : Ty} (inside : ChannelType t) : ChannelType (.label name t)
  | array {sub size : Ty} (inside : ChannelType sub) : ChannelType (.array sub size)

/-! ## Cells and lines -/

/-- The cell with the indices is declared. -/
def DeclaredCell (env : Env) (p : Option Instance) (c : Symbol) (indices : List Int) : Prop :=
  ∃ ranges, IndexRanges env p (env.getType c) ranges ∧ indices ∈ multiIndices ranges

/-- The cell is declared and starts with the value. -/
inductive StartsWith (env : Env) (p : Option Instance) (c : Symbol) (indices : List Int) : Int → Prop where
  | clock (clocks : Clocks (env.getType c)) (declared : DeclaredCell env p c indices) :
      StartsWith env p c indices 0
  | variable' {ranges : List (Int × Int)} {lo hi v : Int} (numeric : Numeric false (env.getType c))
      (ranged : IndexRanges env p (env.getType c) ranges) (inside : indices ∈ multiIndices ranges)
      (cell : CellAt env p (env.getType c) ranges (env.initialiser c) indices lo hi v) :
      StartsWith env p c indices v

/-- The line declares something of the type that starts with the value. -/
inductive StartLine (t : Ty) (id : String) (size : Int) : Int → Line → Prop where
  | clock (clocks : Clocks t) : StartLine t id size 0 (.clock id size)
  | intvar {lo hi v : Int} (numeric : Numeric false t) : StartLine t id size v (.intvar lo hi v id size)

/-- The lines of a variable: one for a whole array, one for each cell, or none. -/
inductive Block (env : Env) (p : Option Instance) (name : String) (c : Symbol) : List Line → Prop where
  | line {min max n : Int} {l : Line} (one : oneDim env c = true)
      (ranged : IndexRanges env p (env.getType c) [(min, max)])
      (start : StartLine (env.getType c) name (max - min + 1) n l)
      (cells : ∀ i, min ≤ i → i ≤ max → StartsWith env p c [i] n) : Block env p name c [l]
  | cells {ranges : List (Int × Int)} {ls : List Line} (split : oneDim env c = false)
      (ranged : IndexRanges env p (env.getType c) ranges)
      (starts : List.Forall₂ (fun indices l => ∃ n,
        StartLine (env.getType c) (cellName name indices.reverse) 1 n l ∧ StartsWith env p c indices n)
        (multiIndices ranges) ls) : Block env p name c ls
  | nothing (channels : ChannelType (env.getType c)) : Block env p name c []

section

variable {env : Env} {p : Option Instance} {name : String} {t : Ty} {init : Option Expr} {ls : List Line}
  {c : Symbol}

/-! ## Clocks -/

theorem clocks_stripLabels (clocks : Clocks t) : Clocks (stripLabels t) := by
  induction clocks with
  | clock => exact .clock
  | label _ ih => exact ih
  | array inside => exact .array inside

theorem kind_of_clocks (clocks : Clocks t) :
    (stripLabels t).kind = .prim .clock ∨ (stripLabels t).kind = .array := by
  induction clocks with
  | clock => exact .inl rfl
  | label _ ih => exact ih
  | array => exact .inr rfl

theorem isClock_of_clocks (clocks : Clocks t) : t.stripArray.isClock = true := by
  induction clocks with
  | clock => rfl
  | label _ ih => exact ih
  | array _ ih => exact ih

theorem not_clocks_of_numeric {constant : Bool} (numeric : Numeric constant t) : ¬ Clocks t := by
  intro clocks
  have isClock := isClock_of_clocks clocks
  rw [noClock_of_numeric numeric] at isClock
  cases isClock

theorem no_variableLine {lo hi v : Int} (clocks : Clocks t) :
    ¬ VariableLine env p (stripLabels t) init lo hi v := by
  intro printed
  have kind := kind_of_variableLine printed
  rcases kind_of_clocks clocks with same | same <;> rw [same] at kind <;> cases kind

theorem dimensions_of_clocks (clocks : Clocks t) (single : t.isArray = false) : dimensions t = [] := by
  induction clocks with
  | clock => rfl
  | label _ ih => exact ih single
  | array => cases single

/-- The cells of an array of clocks have a line each, row by row. -/
theorem clocks_of_cellLines (clocks : Clocks t) (known : ∀ x ∈ readBounds t, Knowable env p x)
    {S : List Int} (printed : CellLines env p name t init S ls) : ∃ ranges, IndexRanges env p t ranges ∧
      ls = (multiIndices ranges).map fun indices => .clock (cellName name (indices.reverse ++ S)) 1 := by
  induction clocks generalizing init S ls with
  | clock =>
      change CellLine env p (cellName name S) (.prim .clock) init ls at printed
      cases printed with
      | channel kind => rcases kind with kind | kind | kind <;> cases kind
      | clock => exact ⟨[], .nil, rfl⟩
      | integer printed => exact absurd printed (no_variableLine .clock)
  | @label label t clocks _ =>
      change CellLine env p (cellName name S) (.label label t) init ls at printed
      cases printed with
      | channel kind => rcases kind with kind | kind | kind <;> cases kind
      | clock kind => cases kind
      | integer printed => exact absurd printed (no_variableLine (.label clocks))
  | @array sub size _ ih =>
      obtain ⟨min, max, blocks, computed, _, rows, rfl⟩ := printed
      have knownSize : ∀ x ∈ boundsOf size, Knowable env p x :=
        fun x listed => known x (mem_readBounds_size List.mem_cons_self listed)
      have knownSub : ∀ x ∈ readBounds sub, Knowable env p x :=
        fun x listed => known x (mem_readBounds_row listed)
      obtain ⟨range, nonempty⟩ := indexRange_of_computeRangeBounds knownSize computed
      -- the rows have the same ranges as the first one
      obtain ⟨_, _, _, _, first⟩ := exists_of_forall₂ rows (mem_intRange.mpr ⟨le_refl min, nonempty⟩)
      obtain ⟨ranges, ranged, _⟩ := ih knownSub first
      refine ⟨(min, max) :: ranges, .cons range ranged, ?_⟩
      have same : List.Forall₂ (fun block block' => block = block')
          ((intRange min max).map fun i => (multiIndices ranges).map fun indices =>
            Line.clock (cellName name (indices.reverse ++ i :: S)) 1) blocks := by
        rw [List.forall₂_map_left_iff]
        refine rows.imp fun i block row => ?_
        obtain ⟨cell, _, printed⟩ := row
        obtain ⟨ranges', ranged', rfl⟩ := ih knownSub printed
        rw [indexRanges_unique ranged ranged']
      rw [List.forall₂_eq_eq_eq] at same
      rw [← same, multiIndices_cons, List.map_flatMap, List.flatMap_def]
      congr 1
      refine List.map_congr_left fun i _ => ?_
      rw [List.map_map]
      refine List.map_congr_left fun indices _ => ?_
      rw [Function.comp_apply, List.reverse_cons, List.append_assoc, List.singleton_append]

theorem startsWith_clock (clocks : Clocks (env.getType c)) {ranges : List (Int × Int)} {indices : List Int}
    (ranged : IndexRanges env p (env.getType c) ranges) (inside : indices ∈ multiIndices ranges) :
    StartsWith env p c indices 0 :=
  .clock clocks ⟨ranges, ranged, inside⟩

theorem mem_interval {min max i : Int} (lower : min ≤ i) (upper : i ≤ max) :
    [i] ∈ multiIndices [(min, max)] :=
  mem_multiIndices_cons.mpr ⟨i, [], rfl, ⟨lower, upper⟩, List.mem_singleton_self _⟩

/-- The lines of a clock. -/
theorem block_of_clocks (clocks : Clocks (env.getType c))
    (known : ∀ x ∈ readBounds (env.getType c), Knowable env p x)
    (printed : DeclarationLines env p name (stripLabels (env.getType c)) (env.initialiser c) ls) :
    Block env p name c ls := by
  have stripped := clocks_stripLabels clocks
  have kinds := kind_of_clocks clocks
  have one : oneDim env c =
      (looksOneDim (stripLabels (env.getType c)) && entriesEqual env (env.initialiser c)) := by
    rw [looksOneDim_stripLabels]
    rfl
  have array := (stripLabels_transparent (env.getType c)).2.2.2
  have ranged {ranges : List (Int × Int)} :
      IndexRanges env p (stripLabels (env.getType c)) ranges → IndexRanges env p (env.getType c) ranges :=
    indexRanges_stripLabels.mp
  have known' : ∀ x ∈ readBounds (stripLabels (env.getType c)), Knowable env p x := by
    rwa [readBounds_stripLabels]
  generalize stripLabels (env.getType c) = u at *
  cases stripped with
  | clock =>
      cases printed with
      | integer kind => rcases kind with kind | kind | kind <;> cases kind
      | channel kind => rcases kind with kind | kind | kind <;> cases kind
      | clock =>
          have flat : IndexRanges env p (env.getType c) [] := ranged .nil
          exact .cells one flat (.cons ⟨0, .clock clocks, startsWith_clock clocks flat
            (List.mem_singleton_self _)⟩ .nil)
      | array kind => cases kind
  | label => rcases kinds with kind | kind <;> cases kind
  | @array sub size inside =>
      cases printed with
      | integer kind => rcases kind with kind | kind | kind <;> cases kind
      | channel kind => rcases kind with kind | kind | kind <;> cases kind
      | clock kind => cases kind
      | array _ printed =>
          cases printed with
          | clocks whole =>
              rw [← (oneDimDeclaration_eq_ok whole).2.1] at one
              obtain ⟨computed, single, _⟩ := oneDimDeclaration_facts whole
              have range := (indexRange_of_computeRangeBounds
                (fun x listed => known' x (mem_readBounds_size List.mem_cons_self listed)) computed).1
              have line : IndexRanges env p (env.getType c) _ := ranged (by
                rw [IndexRanges, dimensions, dimensions_of_clocks inside single]
                exact .cons range .nil)
              exact .line one line (.clock clocks) fun i lower upper =>
                startsWith_clock clocks line (mem_interval lower upper)
          | integers _ noClock =>
              rw [isClock_of_clocks (.array inside)] at noClock
              cases noClock
          | cells split printed =>
              rw [← (oneDimDeclaration_eq_ok split).2.1] at one
              obtain ⟨ranges, ranged', rfl⟩ := clocks_of_cellLines (.array inside) known' printed
              refine .cells one (ranged ranged') ?_
              rw [List.forall₂_map_right_iff, List.forall₂_same]
              intro indices listed
              rw [List.append_nil]
              exact ⟨0, .clock clocks, startsWith_clock clocks (ranged ranged') listed⟩

/-! ## Channels -/

theorem channelType_stripLabels (channels : ChannelType t) : ChannelType (stripLabels t) := by
  induction channels with
  | channel => exact .channel
  | mode listed inside => exact .mode listed inside
  | label _ ih => exact ih
  | array inside => exact .array inside

theorem noClock_of_channelType (channels : ChannelType t) : t.stripArray.isClock = false := by
  induction channels with
  | channel => rfl
  | mode _ _ ih => exact ih
  | label _ ih => exact ih
  | array _ ih => exact ih

theorem not_channelType_of_numeric {constant : Bool} (numeric : Numeric constant t) : ¬ ChannelType t := by
  intro channels
  induction channels with
  | channel => cases numeric
  | mode listed =>
      rcases listed with rfl | rfl
      · cases numeric
      · cases numeric
  | label _ ih =>
      cases numeric with
      | label inside => exact ih inside
  | array _ ih =>
      cases numeric with
      | array inside => exact ih inside

theorem no_variableKind (channels : ChannelType t) : isVariableKind t.kind = false := by
  cases channels with
  | mode listed => rcases listed with rfl | rfl <;> rfl
  | _ => rfl

theorem no_cellKind (channels : ChannelType t) : isCellKind (stripRefsAndLabels t).kind = false := by
  induction channels with
  | mode listed => rcases listed with rfl | rfl <;> rfl
  | label _ ih => exact ih
  | _ => rfl

/-- A cell of a channel has no line. -/
theorem no_lines_of_cell (channels : ChannelType t) (printed : CellLine env p name t init ls) :
    ls = [] := by
  cases printed with
  | channel => rfl
  | clock kind => cases channels <;> cases kind
  | integer printed =>
      have kind := kind_of_variableLine printed
      rw [no_variableKind (channelType_stripLabels channels)] at kind
      cases kind

/-- No cell of an array of channels has a line. -/
theorem no_lines_of_channels (channels : ChannelType t) {S : List Int}
    (printed : CellLines env p name t init S ls) : ls = [] := by
  induction channels generalizing init S ls with
  | @array sub size _ ih =>
      obtain ⟨min, max, blocks, _, _, rows, rfl⟩ := printed
      rw [List.flatten_eq_nil_iff]
      intro block listed
      obtain ⟨i, _, cell, _, lines⟩ := exists_of_forall₂ rows.flip listed
      exact ih lines
  | channel => exact no_lines_of_cell .channel printed
  | mode listed inside => exact no_lines_of_cell (.mode listed inside) printed
  | label inside => exact no_lines_of_cell (.label inside) printed

theorem block_of_channels (channels : ChannelType (env.getType c))
    (printed : DeclarationLines env p name (stripLabels (env.getType c)) (env.initialiser c) ls) :
    Block env p name c ls := by
  have stripped := channelType_stripLabels channels
  suffices none : ls = [] by
    rw [none]
    exact .nothing channels
  generalize stripLabels (env.getType c) = u at *
  cases printed with
  | integer _ printed =>
      have kind := kind_of_variableLine printed
      rw [no_variableKind stripped] at kind
      cases kind
  | channel => rfl
  | clock kind => cases stripped <;> cases kind
  | array kind printed =>
      cases printed with
      | clocks _ isClock =>
          rw [noClock_of_channelType stripped] at isClock
          cases isClock
      | integers whole =>
          cases stripped with
          | array inside =>
              obtain ⟨_, _, rfl, cells, _⟩ := oneDimDeclaration_facts whole
              rw [no_cellKind inside] at cells
              cases cells
          | _ => cases kind
      | cells _ printed => exact no_lines_of_channels stripped printed

/-! ## Variables -/

theorem cellName_inj {indices indices' : List Int}
    (same : cellName name indices.reverse = cellName name indices'.reverse) : indices = indices' := by
  have texts := congrArg String.toList same
  rw [toList_cellName, toList_cellName] at texts
  exact joined_injective underscore_not_mem_intText intText_injective (List.append_cancel_left texts)

theorem cellName_eq_self {indices : List Int} (same : cellName name indices.reverse = name) :
    indices = [] := by
  have whole : cellName name indices.reverse = cellName name ([] : List Int).reverse := same
  exact cellName_inj whole

/-- The lines of the cells of an array do not have its name. -/
theorem name_ne_of_cellLines {sub size : Ty} (printed : CellLines env p name (.array sub size) init [] ls)
    {lo hi v n : Int} : Line.intvar lo hi v name n ∉ ls := by
  intro listed
  obtain ⟨min, max, blocks, _, _, rows, rfl⟩ := printed
  obtain ⟨block, inside, member⟩ := List.mem_flatten.mp listed
  obtain ⟨i, _, cell, _, lines⟩ := exists_of_forall₂ rows.flip inside
  obtain ⟨indices, output⟩ := mem_cellLines lines member
  generalize text : cellName name (indices.reverse ++ [i]) = id at output
  cases output
  rw [← List.reverse_cons] at text
  cases cellName_eq_self text

/-- A variable has one line if it is an array of TChecker, and else lines for its cells. -/
theorem layout_of_numeric (numeric : Numeric false (env.getType c))
    (accepted : AcceptedDeclaration env p (env.getType c) (env.initialiser c))
    (reads : ReadRight env p (env.getType c) (env.initialiser c))
    (regular : Regular env p (env.getType c) (env.initialiser c))
    (printed : DeclarationLines env p name (stripLabels (env.getType c)) (env.initialiser c) ls) :
    oneDim env c = true ∧ dimensions (env.getType c) ≠ [] ∧
        (∃ lo hi v n, ls = [Line.intvar lo hi v name n]) ∨
      oneDim env c = false ∧ (dimensions (env.getType c) ≠ [] → ∀ lo hi v n,
        Line.intvar lo hi v name n ∉ ls) := by
  have ready : Ready env p (env.getType c) (env.initialiser c) :=
    { numeric
      bounds := fun x read => ⟨accepted.bounds x (boundsOf_of_readBounds read), reads.bounds x read⟩
      entries := accepted.entries
      right := reads.entries
      shape := regular.shape
      constants := regular.constants }
  have ready := ready.stripped
  have one : oneDim env c =
      (looksOneDim (stripLabels (env.getType c)) && entriesEqual env (env.initialiser c)) := by
    rw [looksOneDim_stripLabels]
    rfl
  rw [← (stripLabels_transparent (env.getType c)).1]
  generalize stripLabels (env.getType c) = u at *
  cases printed with
  | integer _ line =>
      obtain ⟨flat, _⟩ := cell_of_variableLine ready line
      have single : u.isArray = false := by
        rw [← Bool.not_eq_true]
        intro array
        obtain ⟨sub, size, _, _, dims, _⟩ := dimensions_cons ready.numeric array
        rw [flat] at dims
        cases dims
      refine .inr ⟨?_, fun nonempty => absurd flat nonempty⟩
      rw [one, looksOneDim, single, Bool.false_and, Bool.false_and]
  | channel kind => cases ready.numeric <;> rcases kind with kind | kind | kind <;> cases kind
  | clock kind => cases ready.numeric <;> cases kind
  | array kind lines =>
      cases lines with
      | clocks _ isClock =>
          rw [noClock_of_numeric ready.numeric] at isClock
          cases isClock
      | integers whole _ printed =>
          rw [← (oneDimDeclaration_eq_ok whole).2.1] at one
          cases u with
          | array sub size => exact .inl ⟨one, List.cons_ne_nil _ _, _, _, _, _, rfl⟩
          | _ => cases kind
      | cells split printed =>
          rw [← (oneDimDeclaration_eq_ok split).2.1] at one
          cases u with
          | array sub size => exact .inr ⟨one, fun _ _ _ _ _ => name_ne_of_cellLines printed⟩
          | _ => cases kind

/-- The lines of a variable. -/
theorem block_of_numeric (numeric : Numeric false (env.getType c))
    (accepted : AcceptedDeclaration env p (env.getType c) (env.initialiser c))
    (reads : ReadRight env p (env.getType c) (env.initialiser c))
    (regular : Regular env p (env.getType c) (env.initialiser c))
    (printed : DeclarationLines env p name (stripLabels (env.getType c)) (env.initialiser c) ls) :
    Block env p name c ls := by
  have layout := layout_of_numeric numeric accepted reads regular printed
  have declared := cellsDeclared_of_regular numeric accepted reads regular printed
  cases declared with
  | @line min max lo hi v ranged _ cells =>
      rcases layout with ⟨one, _, _⟩ | ⟨_, other⟩
      · exact .line one ranged (.intvar numeric) fun i lower upper =>
          .variable' numeric ranged (mem_interval lower upper) (cells [i] (mem_interval lower upper))
      · refine absurd (List.mem_singleton_self _) (other (fun flat => ?_) _ _ _ _)
        rw [IndexRanges, flat] at ranged
        cases ranged
  | @cells ranges _ ranged _ cells =>
      rcases layout with ⟨_, nonempty, lo, hi, v, n, rfl⟩ | ⟨split, _⟩
      · obtain ⟨indices, inside, _, _, _, same, _⟩ :=
          exists_of_forall₂ cells.flip (List.mem_singleton_self _)
        injection same with _ _ _ names
        cases cellName_eq_self names.symm
        cases ranges with
        | nil =>
            rw [IndexRanges, List.forall₂_nil_right_iff] at ranged
            exact absurd ranged nonempty
        | cons range rest =>
            obtain ⟨i, later, empty, _⟩ := mem_multiIndices_cons.mp inside
            cases empty
      · have within := (List.forall₂_and_left _ _).mpr ⟨fun _ inside => inside, cells⟩
        refine .cells split ranged (within.imp fun indices l printed => ?_)
        obtain ⟨inside, lo, hi, v, rfl, cell⟩ := printed
        exact ⟨v, .intvar numeric, .variable' numeric ranged inside cell⟩

/-! ## What a block says -/

theorem StartLine.unique {t t' : Ty} {id id' : String} {size size' n n' : Int} {l : Line}
    (start : StartLine t id size n l) (start' : StartLine t' id' size' n' l) :
    id = id' ∧ size = size' ∧ n = n' := by
  cases start <;> cases start' <;> exact ⟨rfl, rfl, rfl⟩

theorem StartsWith.declared {indices : List Int} {n : Int} (starts : StartsWith env p c indices n) :
    DeclaredCell env p c indices := by
  cases starts with
  | clock _ declared => exact declared
  | variable' _ ranged inside => exact ⟨_, ranged, inside⟩

theorem not_startsWith_of_channels (channels : ChannelType (env.getType c)) {indices : List Int} {n : Int} :
    ¬ StartsWith env p c indices n := by
  intro starts
  cases starts with
  | clock clocks =>
      have isClock := isClock_of_clocks clocks
      rw [noClock_of_channelType channels] at isClock
      cases isClock
  | variable' numeric => exact not_channelType_of_numeric numeric channels

/-- Each declared cell of a variable that is split has a line. -/
theorem Block.cell_listed (block : Block env p name c ls) (split : oneDim env c = false)
    {indices : List Int} {n : Int}
    (starts : StartsWith env p c indices n) :
    ∃ l ∈ ls, ∃ m, StartLine (env.getType c) (cellName name indices.reverse) 1 m l := by
  obtain ⟨ranges, ranged, inside⟩ := starts.declared
  cases block with
  | line one =>
      rw [split] at one
      cases one
  | cells _ ranged' rows =>
      rw [indexRanges_unique ranged ranged'] at inside
      obtain ⟨l, listed, m, start, _⟩ := exists_of_forall₂ rows inside
      exact ⟨l, listed, m, start⟩
  | nothing channels => exact absurd starts (not_startsWith_of_channels channels)

/-- The line of a cell says how it starts. -/
theorem Block.cell_starts (block : Block env p name c ls) (split : oneDim env c = false) {l : Line}
    (listed : l ∈ ls) {t' : Ty} {indices : List Int} {size n : Int}
    (start : StartLine t' (cellName name indices.reverse) size n l) : StartsWith env p c indices n := by
  cases block with
  | line one =>
      rw [split] at one
      cases one
  | cells _ _ rows =>
      obtain ⟨indices', _, n', start', starts⟩ := exists_of_forall₂ rows.flip listed
      obtain ⟨names, _, rfl⟩ := start.unique start'
      rwa [cellName_inj names]
  | nothing => cases listed

theorem dimensions_of_getArraySize? {size : Ty} (sized : t.getArraySize? = some size) :
    ∃ rest, dimensions t = size :: rest := by
  fun_induction Ty.getArraySize? t with
  | case2 _ t ih => exact ih sized
  | case3 t ih => exact ih sized
  | case4 _ t ih => exact ih sized
  | case6 sub size =>
      cases sized
      exact ⟨_, rfl⟩
  | _ => cases sized

/-- The bounds of an array are those of its first dimension. -/
theorem interval_of_bounds (known : ∀ x ∈ readBounds t, Knowable env p x) {min max min' max' : Int}
    (bounds : indexBounds env p t = .ok (min, max)) (ranged : IndexRanges env p t [(min', max')]) :
    min' = min ∧ max' = max := by
  obtain ⟨size, sized, computed⟩ := Res.bind_eq_ok.mp bounds
  obtain ⟨rest, dims⟩ := dimensions_of_getArraySize? (orAssert_eq_ok.mp sized)
  have knownSize : ∀ x ∈ boundsOf size, Knowable env p x := by
    intro x listed
    refine known x (mem_readBounds_size ?_ listed)
    rw [dims]
    exact List.mem_cons_self
  rw [IndexRanges, dims] at ranged
  cases ranged with
  | cons range _ =>
  exact Prod.mk.inj (indexRange_unique range
    (indexRange_of_computeRangeBounds knownSize computed).1)

/-- The line of an array of TChecker stands for its declared cells. -/
theorem Block.array_listed (block : Block env p name c ls) (one : oneDim env c = true)
    (known : ∀ x ∈ readBounds (env.getType c), Knowable env p x) {min max i n : Int}
    (bounds : indexBounds env p (env.getType c) = .ok (min, max)) (starts : StartsWith env p c [i] n) :
    min ≤ i ∧ i ≤ max ∧ ∃ l ∈ ls, ∃ m, StartLine (env.getType c) name (max - min + 1) m l := by
  cases block with
  | line _ ranged start =>
      obtain ⟨rfl, rfl⟩ := interval_of_bounds known bounds ranged
      obtain ⟨ranges, ranged', inside⟩ := starts.declared
      cases indexRanges_unique ranged' ranged
      obtain ⟨i', rest, same, ⟨lower, upper⟩, _⟩ := mem_multiIndices_cons.mp inside
      cases same
      exact ⟨lower, upper, _, List.mem_singleton_self _, _, start⟩
  | cells split =>
      rw [one] at split
      cases split
  | nothing channels => exact absurd starts (not_startsWith_of_channels channels)

theorem Block.array_starts (block : Block env p name c ls) (one : oneDim env c = true)
    (known : ∀ x ∈ readBounds (env.getType c), Knowable env p x) {min max : Int}
    (bounds : indexBounds env p (env.getType c) = .ok (min, max)) {l : Line} (listed : l ∈ ls) {t' : Ty}
    {id : String} {size n : Int} (start : StartLine t' id size n l) :
    size = max - min + 1 ∧ ∀ i, min ≤ i → i ≤ max → StartsWith env p c [i] n := by
  cases block with
  | line _ ranged start' cells =>
      obtain ⟨rfl, rfl⟩ := interval_of_bounds known bounds ranged
      cases List.mem_singleton.mp listed
      obtain ⟨_, rfl, rfl⟩ := start.unique start'
      exact ⟨rfl, cells⟩
  | cells split =>
      rw [one] at split
      cases split
  | nothing => cases listed

end

end Utot
