import Utot.Run.Faults
import Utot.Run.Lines

/-!
# The way to the first cell

The recursion over the cells of an array visits the first cell of each row before
any other cell.  All rows have one type, so a fault of the type shows on the way
to the first cell, and the rows behind it are never reached.
-/

namespace Utot

open Utap Library Tchecker

section

variable (env : Env) (p : Option Instance) (bad : Ty → Prop)

/-- The recursion reaches a part of the type with the property on its way to the
first cell: the bounds above it evaluate, and the initialiser has enough entries. -/
inductive Reached : Ty → Option Expr → Prop where
  | here {t : Ty} {init : Option Expr} (holds : bad t) : Reached t init
  | row {sub size : Ty} {init cell : Option Expr} {min max count : Int}
      (bounds : computeRangeBounds env p size = .ok (min, max))
      (counted : checkedInt (max - min + 1) = .ok count)
      (enough : ∀ e, init = some e → count ≤ e.getSize) (first : initialCell init 0 = .ok cell)
      (inside : Reached sub cell) : Reached (.array sub size) init

/-- Some part of the type has the property. -/
inductive Somewhere : Ty → Prop where
  | here {t : Ty} (holds : bad t) : Somewhere t
  | row {sub size : Ty} (inside : Somewhere sub) : Somewhere (.array sub size)

end

section

variable {env : Env} {p : Option Instance} {bad : Ty → Prop} {t : Ty} {init : Option Expr}

theorem Reached.somewhere (reached : Reached env p bad t init) : Somewhere bad t := by
  induction reached with
  | here holds => exact .here holds
  | row _ _ _ _ _ ih => exact .row ih

theorem initialCell_isNone {k : Int} {cell : Option Expr} (found : initialCell init k = .ok cell) :
    cell.isNone = init.isNone := by
  cases init with
  | none =>
      cases found
      rfl
  | some e =>
      obtain ⟨x, _, same⟩ := Res.bind_eq_ok.mp found
      cases same
      rfl

theorem initialCell_zero {count : Int} (positive : 1 ≤ count)
    (enough : ∀ e, init = some e → count ≤ e.getSize) : ∃ cell, initialCell init 0 = .ok cell := by
  cases init with
  | none => exact ⟨none, rfl⟩
  | some e =>
      have size := enough e rfl
      have bound : 0 < e.subs.length := by
        unfold Expr.getSize at size
        omega
      exact ⟨some e.subs[0],
        Res.bind_eq_ok.mpr ⟨_, orAssert_eq_ok.mpr (List.getElem?_eq_getElem bound), rfl⟩⟩

theorem intRange_eq_cons {min max : Int} (nonempty : min ≤ max) :
    ∃ rest, intRange min max = min :: rest := by
  have count : (max + 1 - min).toNat = (max - min).toNat + 1 := by omega
  refine ⟨(List.range (max - min).toNat).map (fun k : Nat => min + (k + 1 : Nat)), ?_⟩
  unfold intRange
  rw [count, List.range_succ_eq_map, List.map_cons, List.map_map]
  congr 1
  exact add_zero min

theorem arrayElements_eq_declareCell (single : t.kind ≠ .array) (name : String) (init : Option Expr)
    (S : List Int) : sEnumerateArrayElementsDecl env p name t init S =
      declareCell env p (cellName name S) t init := by
  cases t with
  | array sub size => exact absurd rfl single
  | _ => rfl

/-! ## Types that cannot be printed -/

/-- Where a part of the type has no lines, the cells have none. -/
theorem no_lines_of_somewhere {name : String} {plain : Bool}
    (noLines : ∀ t init S ls, bad t → init.isNone = plain → ¬ CellLines env p name t init S ls)
    (somewhere : Somewhere bad t) {S : List Int} {ls : List Line} (same : init.isNone = plain) :
    ¬ CellLines env p name t init S ls := by
  induction somewhere generalizing init S ls with
  | here holds => exact noLines _ _ _ _ holds same
  | row _ ih =>
      rintro ⟨min, max, blocks, computed, _, rows, _⟩
      obtain ⟨_, _, _, _, _, nonempty⟩ := bounds_of_computeRangeBounds computed
      obtain ⟨block, _, cell, found, lines⟩ :=
        exists_of_forall₂ rows (mem_intRange.mpr ⟨le_refl min, nonempty⟩)
      exact ih ((initialCell_isNone found).trans same) lines

theorem stuck_of_somewhere {name : String} {plain : Bool}
    (noLines : ∀ t init S ls, bad t → init.isNone = plain → ¬ CellLines env p name t init S ls)
    (somewhere : Somewhere bad t) (same : init.isNone = plain) (S : List Int) (s : TrState) (u : Unit)
    (s' : TrState) : exec (sEnumerateArrayElementsDecl env p name t init S) s ≠ (.ok u, s') := by
  intro run
  obtain ⟨ls, _, printed⟩ := appends_arrayElements name t init S s s' u run
  exact no_lines_of_somewhere noLines somewhere same printed

/-- Where the part that is reached fails, the recursion fails like it. -/
theorem fails_of_reached {name : String} {plain : Bool} {E : Fault → Prop}
    (fails : ∀ t init S s, bad t → init.isNone = plain →
      ∃ f, (exec (sEnumerateArrayElementsDecl env p name t init S) s).1 = .error f ∧ E f)
    (reached : Reached env p bad t init) (same : init.isNone = plain) (S : List Int) (s : TrState) :
    ∃ f, (exec (sEnumerateArrayElementsDecl env p name t init S) s).1 = .error f ∧ E f := by
  induction reached generalizing S s with
  | here holds => exact fails _ _ S s holds same
  | @row sub size init cell min max count computed counted enough found _ ih =>
      obtain ⟨_, _, _, _, _, nonempty⟩ := bounds_of_computeRangeBounds computed
      obtain ⟨rest, first⟩ := intRange_eq_cons nonempty
      obtain ⟨f, failed, holds⟩ := ih ((initialCell_isNone found).trans same) (min :: S) s
      have loop : (exec (forRange min max fun i => do
          let cell ← fromExcept (initialCell init (i - min))
          sEnumerateArrayElementsDecl env p name sub cell (i :: S)) s).1 = .error f := by
        unfold forRange
        rw [first]
        refine throws_bind (throws_bind ?_)
        beta_reduce
        rw [Int.sub_self, found]
        exact failed
      refine ⟨f, ?_, holds⟩
      unfold sEnumerateArrayElementsDecl
      rw [computed]
      change (exec (fromExcept (checkedInt (max - min + 1)) >>= _) s).1 = _
      rw [counted]
      cases init with
      | none => exact loop
      | some e =>
          have size := enough e rfl
          change (exec (if count > e.getSize then _ else _) s).1 = _
          rw [if_neg (Int.not_lt.mpr size)]
          exact loop

theorem kind_of_variableLine {lo hi v : Int} (line : VariableLine env p t init lo hi v) :
    isVariableKind t.kind = true := by
  have bounded : ∀ lo hi, variableBounds env p t = .ok (some (lo, hi)) → isVariableKind t.kind = true := by
    intro lo hi bounds
    unfold variableBounds at bounds
    split at bounds
    · rename_i kind
      rw [kind]
      rfl
    · rename_i kind
      rw [kind]
      rfl
    · cases bounds
  cases line with
  | constant => rfl
  | given bounds => exact bounded _ _ bounds
  | default bounds => exact bounded _ _ bounds

end

end Utot
