import Utot.Format.Printed
import Utot.Meaning.Declared
import Utot.Meaning.Places
import Utot.Run.Extension

/-!
# The storage behind a name

The lines a variable gets, seen from a use of it: a whole array has one line with
its size, and a variable that has been split has a line of size 1 for each of its
cells.
-/

namespace Utot

open Utap Uppaal Library Tchecker

/-- A clock or an integer variable of the size is declared under the name. -/
def DeclaresSize (lines : List Line) (name : String) (size : Int) : Prop :=
  .clock name size ∈ lines ∨ ∃ min max init, .intvar min max init name size ∈ lines

theorem DeclaresSize.mono {lines lines' : List Line} {name : String} {size : Int}
    (declared : DeclaresSize lines name size) (more : ∀ l ∈ lines, l ∈ lines') :
    DeclaresSize lines' name size := by
  rcases declared with isClock | ⟨min, max, init, isVariable⟩
  · exact .inl (more _ isClock)
  · exact .inr ⟨min, max, init, more _ isVariable⟩

/-- The bounds are known, and the index is within. -/
def InBounds (bounds : Res (Int × Int)) (i : Int) : Prop :=
  ∃ min max, bounds = .ok (min, max) ∧ min ≤ i ∧ i ≤ max

/-- No row of an array has a prefix of its own, as the rows of `const T a[2]` for an
array type `T` have. -/
def rowsPlain : Ty → Bool
  | .pre _ t => !t.isArray
  | .ref t => rowsPlain t
  | .label _ t => rowsPlain t
  | .array sub _ => rowsPlain sub
  | _ => true

section

variable {env : Env} {p q : Option Instance} {t : Ty} {init : Option Expr} {ls : List Line}
  {indices : List Int}

/-! ## Types without outer labels -/

theorem shape_stripLabels (t : Ty) : shape env p (stripLabels t) = shape env p t := by
  fun_induction stripLabels t with
  | case1 name t ih => exact ih
  | case2 t => rfl

theorem rowsPlain_stripLabels (t : Ty) : rowsPlain (stripLabels t) = rowsPlain t := by
  fun_induction stripLabels t with
  | case1 name t ih => exact ih
  | case2 t => rfl

theorem rowsPlain_of_single {t : Ty} (single : t.isArray = false) : rowsPlain t = true := by
  fun_induction rowsPlain t with
  | case1 k t =>
      have inner : t.isArray = false := single
      rw [inner]
      rfl
  | case2 t ih => exact ih single
  | case3 name t ih => exact ih single
  | case4 sub size => cases single
  | case5 => rfl

theorem indexBounds_stripLabels (t : Ty) : indexBounds env p (stripLabels t) = indexBounds env p t := by
  unfold indexBounds
  rw [getArraySize?_stripLabels]

/-- Behind the bounds of a range there are no cells. -/
theorem no_index_of_range {base : Ty} {lower upper : Expr}
    (inside : List.Forall₂ InBounds (shape env q (.range base lower upper)) indices) : indices = [] := by
  unfold shape at inside
  split at inside
  · cases inside with
    | cons bounded _ =>
        obtain ⟨_, _, failed, _⟩ := bounded
        cases failed
  · cases inside
    rfl

/-- A variable with a line of its own has no indices. -/
theorem no_index_of_variableLine {lo hi v : Int} (plain : rowsPlain t = true)
    (printed : VariableLine env p t init lo hi v)
    (inside : List.Forall₂ InBounds (shape env q t) indices) : indices = [] := by
  have bounded {range : Int × Int} (bounds : variableBounds env p t = .ok (some range)) :
      indices = [] := by
    unfold variableBounds at bounds
    split at bounds
    · rename_i kind
      cases t with
      | prim k =>
          cases inside
          rfl
      | _ => cases kind
    · rename_i kind
      cases t with
      | range base lower upper => exact no_index_of_range inside
      | _ => cases kind
    · cases bounds
  cases printed with
  | @constant u e v evaluated =>
      have single : u.isArray = false := by simpa [rowsPlain] using plain
      rw [shape_eq_nil (t := .pre .constant u) single] at inside
      cases inside
      rfl
  | given bounds => exact bounded bounds
  | default bounds => exact bounded bounds

/-! ## The cells of a split variable -/

theorem declared_of_cellLine {name : String} (printed : CellLine env p name t init ls)
    (plain : rowsPlain t = true) (noChannel : isEventKind t.kind = false)
    (inside : List.Forall₂ InBounds (shape env q t) indices) :
    indices = [] ∧ DeclaresSize ls name 1 := by
  cases printed with
  | channel kind =>
      rcases kind with kind | kind | kind <;> rw [kind] at noChannel <;> cases noChannel
  | clock kind =>
      cases t with
      | prim k =>
          cases inside
          exact ⟨rfl, .inl List.mem_cons_self⟩
      | _ => cases kind
  | integer line =>
      rw [← shape_stripLabels] at inside
      have none := no_index_of_variableLine (by rw [rowsPlain_stripLabels]; exact plain) line inside
      exact ⟨none, .inr ⟨_, _, _, List.mem_cons_self⟩⟩

/-- Every cell has a line of size 1; the bounds may have been computed with fewer
bindings than at the use. -/
theorem declared_of_cellLines (more : Extends p q) {name : String} {S : List Int}
    (printed : CellLines env p name t init S ls) (plain : rowsPlain t = true)
    (noChannel : isEventKind (innermost t).kind = false)
    (inside : List.Forall₂ InBounds (shape env q t) indices) :
    DeclaresSize ls (cellName name (indices.reverse ++ S)) 1 := by
  fun_induction innermost t generalizing init ls indices S with
  | case1 sub size ih =>
      obtain ⟨min, max, blocks, bounds, _, rows, rfl⟩ := printed
      cases inside with
      | @cons _ i _ rest first later =>
          obtain ⟨least, greatest, computed, lower, upper⟩ := first
          rw [lifts_computeRangeBounds more size _ bounds] at computed
          cases computed
          obtain ⟨n, position, found⟩ := List.getElem_of_mem (mem_intRange.mpr ⟨lower, upper⟩)
          obtain ⟨count, each⟩ := List.forall₂_iff_get.mp rows
          obtain ⟨cell, _, row⟩ := each n position (count ▸ position)
          rw [List.get_eq_getElem, found] at row
          have declared := ih row plain noChannel later
          rw [List.reverse_cons, List.append_assoc]
          refine declared.mono fun l listed => ?_
          exact List.mem_flatten.mpr ⟨_, List.getElem_mem _, listed⟩
  | case2 t noArray =>
      have line : CellLine env p (cellName name S) t init ls := by
        cases t with
        | array sub size => exact absurd rfl (noArray sub size)
        | _ => exact printed
      obtain ⟨rfl, declared⟩ := declared_of_cellLine line plain noChannel inside
      exact declared

/-! ## Declarations -/

/-- A whole array is declared as an array. -/
theorem kind_of_looksOneDim (noLabel : ∀ name u, t ≠ .label name u) (looks : looksOneDim t = true) :
    t.kind = .array ∨ t.kind = .ref := by
  cases t with
  | array sub size => exact .inl rfl
  | ref u => exact .inr rfl
  | label name u => exact absurd rfl (noLabel name u)
  | prim k => cases looks
  | record labels fields => cases looks
  | pre k u =>
      have array : u.isArray = true := (Bool.and_eq_true_iff.mp looks).1
      simp [looksOneDim, stripRefsAndLabels, Ty.first?, array] at looks
  | range u lower upper =>
      have array : u.isArray = true := (Bool.and_eq_true_iff.mp looks).1
      simp [looksOneDim, stripRefsAndLabels, Ty.first?, array] at looks

theorem stripLabels_ne_label (t : Ty) : ∀ name u, stripLabels t ≠ .label name u := by
  fun_induction stripLabels t with
  | case1 name t ih => exact ih
  | case2 t noLabel => exact noLabel

/-- The line of a whole array has its size. -/
theorem declared_of_whole (more : Extends p q) {c : Symbol} {name : String} {min max : Int}
    (printed : DeclarationLines env p name (stripLabels (env.getType c)) (env.initialiser c) ls)
    (line : oneDim env c = true) (bounds : indexBounds env q (env.getType c) = .ok (min, max)) :
    DeclaresSize ls name (max - min + 1) := by
  obtain ⟨looks, entries⟩ := Bool.and_eq_true_iff.mp line
  rw [← looksOneDim_stripLabels] at looks
  have kinds := kind_of_looksOneDim (stripLabels_ne_label _) looks
  have sized {found : Int × Int × Ty × Option Expr} (whole : oneDimDeclaration env p
      (stripLabels (env.getType c)) (env.initialiser c) = .ok (some found)) :
      found.1 = min ∧ found.2.1 = max := by
    obtain ⟨_, _, stored⟩ := oneDimDeclaration_eq_ok whole
    have computed := lifts_indexBounds more _ _ (stored _ _ _ _ rfl)
    rw [indexBounds_stripLabels, bounds] at computed
    cases computed
    exact ⟨rfl, rfl⟩
  cases printed with
  | integer kind => rcases kinds with same | same <;> rw [same] at kind <;> simp at kind
  | channel kind => rcases kinds with same | same <;> rw [same] at kind <;> simp at kind
  | clock kind => rcases kinds with same | same <;> rw [same] at kind <;> cases kind
  | array kind printed =>
      cases printed with
      | clocks whole =>
          obtain ⟨rfl, rfl⟩ := sized whole
          exact .inl List.mem_cons_self
      | integers whole =>
          obtain ⟨rfl, rfl⟩ := sized whole
          exact .inr ⟨_, _, _, List.mem_cons_self⟩
      | cells split =>
          obtain ⟨_, none, _⟩ := oneDimDeclaration_eq_ok split
          rw [looks, entries] at none
          cases none

/-- The lines of a split variable have one of size 1 for each cell. -/
theorem declared_of_split (more : Extends p q) {c : Symbol} {name : String}
    (printed : DeclarationLines env p name (stripLabels (env.getType c)) (env.initialiser c) ls)
    (split : oneDim env c = false) (plain : rowsPlain (env.getType c) = true)
    (lines : writesLines (env.getType c) = true)
    (inside : List.Forall₂ InBounds (shape env q (env.getType c)) indices) :
    DeclaresSize ls (cellName name indices.reverse) 1 := by
  rw [← rowsPlain_stripLabels] at plain
  rw [← shape_stripLabels] at inside
  have noChannel : isEventKind (innermost (stripLabels (env.getType c))).kind = false := by
    simpa [writesLines] using lines
  rw [oneDim, ← looksOneDim_stripLabels] at split
  generalize stripLabels (env.getType c) = t at *
  have whole {found : Int × Int × Ty × Option Expr}
      (decided : oneDimDeclaration env p t (env.initialiser c) = .ok (some found)) : False := by
    obtain ⟨_, same, _⟩ := oneDimDeclaration_eq_ok decided
    rw [split] at same
    cases same
  cases printed with
  | integer kind line =>
      have none := no_index_of_variableLine plain line inside
      rw [none]
      exact .inr ⟨_, _, _, List.mem_cons_self⟩
  | channel kind =>
      rcases kind with kind | kind | kind <;> cases t <;> cases kind <;> cases noChannel
  | clock kind =>
      cases t with
      | prim k =>
          cases inside
          exact .inl List.mem_cons_self
      | _ => cases kind
  | array kind printed =>
      cases printed with
      | clocks decided => exact absurd (whole decided) id
      | integers decided => exact absurd (whole decided) id
      | cells _ printed =>
          have declared := declared_of_cellLines more printed plain noChannel inside
          rw [List.append_nil] at declared
          exact declared

end

/-! ## Indices at a use -/

section

variable {env : Env} {p : Option Instance} {scope : List Symbol} {e : Expr} {c : Symbol}
  {indices : List Int} {depth : Nat} {ctx : ContextPrefix} {text : String}

/-- The indices of a printed cell are within the bounds of their dimensions. -/
theorem SplitPath.inBounds (checked : Checked env p scope e) (path : SplitPath env p e c indices)
    (printed : translateAux env depth p e ctx = .ok text) :
    ∃ front, shape env p (env.getType c) = front ++ shape env p e.type ∧
      List.Forall₂ InBounds front indices := by
  induction path generalizing depth text with
  | declared =>
      rw [checked.identifiers _ _ .self]
      exact ⟨[], rfl, .nil⟩
  | @parameter s c t argument indices bound _ ih =>
      cases depth with
      | zero => cases printed
      | succ depth =>
          simp only [translateAux, bound] at printed
          obtain ⟨front, same, inside⟩ := ih (checked.argument bound) printed
          rw [← (checked.parameters _ _ bound).2, ← checked.identifiers _ _ .self] at same
          exact ⟨front, same, inside⟩
  | @subscript a i t c indices index array use at' ih =>
      cases depth with
      | zero => cases printed
      | succ depth =>
          obtain ⟨⟨answer, minsz, maxsz⟩, decided, printed⟩ := Res.bind_eq_ok.mp printed
          have split := array.use_eq checked.left use decided
          subst split
          obtain ⟨_, bounded, _⟩ := isOneDimArrayVariable_eq_ok decided
          obtain ⟨value, evaluated, printed⟩ := Res.bind_eq_ok.mp printed
          split at printed
          · rename_i within
            obtain ⟨_, first, _⟩ := Res.bind_eq_ok.mp printed
            obtain ⟨front, same, inside⟩ := ih checked.left first
            obtain ⟨bounds, cells⟩ : ∃ bounds, shape env p a.type = bounds :: shape env p t :=
              shape_getSub (checked.subscripts a i t .self)
            have known := (isArray_of_shape cells).2
            rw [at'.eq_of_evalAux evaluated] at within
            refine ⟨front ++ [bounds], by rw [same, cells, List.append_assoc]; rfl, ?_⟩
            refine List.rel_append inside ?_
            exact .cons ⟨minsz, maxsz, known.trans bounded, within⟩ .nil
          · cases printed

end

end Utot
