import Std.Data.String.ToInt
import Utot.Library.Joined
import Utot.Translate.Declarations
import Utot.Translate.Processes

/-!
# Texts of names

What `operator <<` of a prefix, `add_prefix` and the printers of cells build, as
a root and parts that are each written behind a `_`.
-/

namespace Utot

open Utap Library

/-- The decimal text of a number. -/
def intText (i : Int) : List Char := (toString i).toList

theorem underscore_not_mem_intText (i : Int) : '_' ∉ intText i := by
  have digits (n : Nat) : '_' ∉ n.repr.toList := by
    rw [Nat.toList_repr]
    exact Nat.underscore_not_in_toDigits
  change '_' ∉ (Int.repr i).toList
  rw [Int.repr_eq_if]
  split
  · exact digits _
  · simp

theorem intText_injective (i j : Int) (same : intText i = intText j) : i = j :=
  Int.repr_injective (String.toList_inj.mp same)

/-- A letter is in no decimal text. -/
theorem letter_not_mem_intText {c : Char} (noDigit : c.isDigit = false) (noSign : c ≠ '-') (i : Int) :
    c ∉ intText i := by
  have digits (n : Nat) : c ∉ n.repr.toList := by
    rw [Nat.toList_repr]
    intro inside
    have digit := Nat.isDigit_of_mem_toDigits (by decide) (by decide) inside
    rw [noDigit] at digit
    cases digit
  change c ∉ (Int.repr i).toList
  rw [Int.repr_eq_if]
  split
  · exact digits _
  · rw [String.toList_append, List.mem_append]
    rintro (sign | digit)
    · exact noSign (List.mem_singleton.mp sign)
    · exact digits _ digit

theorem toList_cellName (name : String) (indices : List Int) :
    (cellName name indices.reverse).toList = name.toList ++ joined '_' intText indices := by
  unfold cellName
  rw [List.reverse_reverse]
  induction indices generalizing name with
  | nil => simp [joined]
  | cons i rest ih =>
      rw [List.foldl_cons, ih]
      simp [joined, intText]

/-- A name with one more index. -/
theorem cellName_append (name : String) (indices : List Int) (i : Int) :
    cellName name (indices ++ [i]).reverse = cellName name indices.reverse ++ "_" ++ toString i := by
  unfold cellName
  rw [List.reverse_reverse, List.reverse_reverse, List.foldl_append]
  rfl

theorem toList_stringOf (first : String) (rest : ContextPrefix) :
    (stringOf (first :: rest)).toList = first.toList ++ joined '_' String.toList rest := by
  induction rest generalizing first with
  | nil => simp [stringOf, joined]
  | cons second rest ih =>
      have tail := ih second
      unfold stringOf at tail ⊢
      rw [String.intercalate_cons_cons, String.toList_append, tail]
      simp [joined]

theorem toList_addPrefix (first : String) (rest : ContextPrefix) (name : String) :
    (addPrefix (first :: rest) name).toList =
      first.toList ++ (joined '_' String.toList rest ++ '_' :: name.toList) := by
  change (stringOf (first :: rest) ++ "_" ++ name).toList = _
  rw [String.toList_append, String.toList_append, toList_stringOf]
  simp

theorem toList_sAssignmentToString (env : Env) (s : Symbol) (value : Int) :
    (sAssignmentToString env s value).toList = (env.getName s).toList ++ '_' :: intText value := by
  unfold sAssignmentToString
  rw [String.toList_append, String.toList_append]
  simp [intText]

end Utot
