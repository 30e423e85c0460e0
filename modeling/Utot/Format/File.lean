import Utot.Tchecker.Reading
import Utot.Translate.Output

/-!
# The file of an outputter

What the outputter has written, line after line; messages go elsewhere.  The
file is read back if every line can be and no comment goes on in a line of its
own.
-/

namespace Utot

open Utap Library Tchecker

/-- The texts `operator <<` of the parser library gives for what comments show. -/
structure Dumps where
  expr : Expr → String
  type : Ty → String
  symbol : Symbol → String

/-- The texts are on one line. -/
structure Dumps.OneLine (d : Dumps) : Prop where
  expr : ∀ e, '\n' ∉ (d.expr e).toList
  type : ∀ t, '\n' ∉ (d.type t).toList
  symbol : ∀ s, '\n' ∉ (d.symbol s).toList

/-- An argument of `comment`. -/
def argText (d : Dumps) : Arg → List Char
  | .text text => text.toList
  | .int value => (toString value).toList
  | .expr e => (d.expr e).toList
  | .type t => (d.type t).toList
  | .symbol s => (d.symbol s).toList

/-- The line of a write, without its end. -/
def physicalLine (d : Dumps) : Output → Option (List Char)
  | .line l => some (render l).toList
  | .comment args => some ('#' :: ' ' :: args.flatMap (argText d))
  | .blank => some []
  | .message _ _ => none

/-- The file. -/
def fileText (d : Dumps) (trace : List Output) : List Char :=
  (trace.filterMap (physicalLine d)).flatMap fun line => line ++ ['\n']

/-- The line can be read back, and the comment stays on its line. -/
def Writable (d : Dumps) : Output → Prop
  | .line l => Readable l
  | .comment args => ∀ arg ∈ args, '\n' ∉ argText d arg
  | .blank => True
  | .message _ _ => True

section

variable {d : Dumps}

theorem not_mem_physicalLine {o : Output} (writable : Writable d o) {line : List Char}
    (written : physicalLine d o = some line) : '\n' ∉ line := by
  cases o with
  | line l =>
      cases written
      exact not_mem_render writable (by decide)
  | comment args =>
      cases written
      simp only [List.mem_cons, List.mem_flatMap, not_or, not_exists, not_and]
      exact ⟨by decide, by decide, writable⟩
  | blank =>
      cases written
      exact List.not_mem_nil
  | message level args => cases written

theorem readLines_write {o : Output} (writable : Writable d o) {line : List Char}
    (written : physicalLine d o = some line) (rest : List (List Char)) :
    readLines (line :: rest) = (readLines rest).map (linesOf [o] ++ ·) := by
  have same : (readLines rest).map ([] ++ ·) = readLines rest := by
    cases readLines rest <;> rfl
  cases o with
  | line l =>
      cases written
      exact readLines_cons writable rest
  | comment args =>
      cases written
      exact (readLines_skip (.inr ⟨_, rfl⟩) rest).trans same.symm
  | blank =>
      cases written
      exact (readLines_skip (.inl rfl) rest).trans same.symm
  | message level args => cases written

/-- The file is read back as the lines that have been written. -/
theorem readModel_fileText {trace : List Output} (writable : ∀ o ∈ trace, Writable d o) :
    readModel (fileText d trace) = some (linesOf trace) := by
  unfold readModel
  induction trace with
  | nil => rfl
  | cons o rest ih =>
      have later := ih fun o' inside => writable o' (List.mem_cons_of_mem _ inside)
      have first := writable o List.mem_cons_self
      have lines : linesOf (o :: rest) = linesOf [o] ++ linesOf rest :=
        List.filterMap_append (l := [o])
      cases written : physicalLine d o with
      | none =>
          have silent : linesOf [o] = [] := by
            cases o with
            | message level args => rfl
            | _ => cases written
          have text : fileText d (o :: rest) = fileText d rest := by
            rw [fileText, List.filterMap_cons, written]
            rfl
          rw [text, later, lines, silent, List.nil_append]
      | some line =>
          have text : fileText d (o :: rest) = line ++ '\n' :: fileText d rest := by
            rw [fileText, List.filterMap_cons, written]
            change (line ++ ['\n']) ++ fileText d rest = _
            rw [List.append_assoc, List.singleton_append]
          rw [text, List.splitOn_append_cons_self_of_not_mem (not_mem_physicalLine first written),
            readLines_write first written, later, lines]
          rfl

end

end Utot
