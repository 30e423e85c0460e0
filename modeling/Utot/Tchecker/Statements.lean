import Utot.Library.Joined
import Utot.Tchecker.Operands

/-!
# Statements of the TChecker format

The text of a `do` attribute: assignments to variables, clocks and elements of
arrays with `;` between them, executed one after the other.
-/

namespace Utot.Tchecker

open Utap Uppaal Library

/-! ## Statements and their effects -/

inductive Statement where
  | nop
  | assign (id : String) (x : Tree)
  | assignElem (id : String) (index x : Tree)
  deriving DecidableEq, Repr

section

variable {V : Type}

def Valuation.set (τ : Valuation V) (id : String) (v : V) : Valuation V :=
  { τ with scalar := fun id' => if id' = id then some v else τ.scalar id' }

def Valuation.setElem (τ : Valuation V) (id : String) (index : Int) (v : V) : Valuation V :=
  { τ with cell := fun id' index' => if id' = id ∧ index' = index then some v else τ.cell id' index' }

/-- An assignment needs a variable that exists and a value. -/
def Statement.run (A : Arithmetic V) : Statement → Valuation V → Option (Valuation V)
  | .nop, τ => some τ
  | .assign id x, τ => (τ.scalar id).bind fun _ => (x.value A τ).map (τ.set id)
  | .assignElem id i x, τ =>
      ((i.value A τ).bind A.toInt).bind fun n =>
        (τ.cell id n).bind fun _ => (x.value A τ).map (τ.setElem id n)

def runAll (A : Arithmetic V) : List Statement → Valuation V → Option (Valuation V)
  | [], τ => some τ
  | s :: rest, τ => (s.run A τ).bind (runAll A rest)

theorem runAll_append (A : Arithmetic V) (first second : List Statement) (τ : Valuation V) :
    runAll A (first ++ second) τ = (runAll A first τ).bind (runAll A second) := by
  induction first generalizing τ with
  | nil => rfl
  | cons s rest ih =>
      rw [List.cons_append, runAll, runAll, Option.bind_assoc]
      congr 1
      funext τ'
      exact ih τ'

end

/-- The assignment of a tree to what is on its left. -/
def assignTo : Tree → Tree → Option Statement
  | .name id, x => some (.assign id x)
  | .elem id i, x => some (.assignElem id i x)
  | _, _ => none

/-! ## Reading statements -/

inductive StatementOf : List (List Char) → Statement → Prop where
  | nop : StatementOf ["nop".toList] .nop
  | assign {left right : List (List Char)} {y x : Tree} {s : Statement}
      (target : Phrase grammar grammar.top left y) (value : Phrase grammar 0 right x)
      (made : assignTo y x = some s) : StatementOf (left ++ ['='] :: right) s

inductive StatementsOf : List (List Char) → List Statement → Prop where
  | single {ts : List (List Char)} {s : Statement} (first : StatementOf ts s) : StatementsOf ts [s]
  | more {ts ts' : List (List Char)} {s : Statement} {rest : List Statement}
      (first : StatementOf ts s) (later : StatementsOf ts' rest) :
      StatementsOf (ts ++ [';'] :: ts') (s :: rest)

/-- The text is read as the statements. -/
def ReadsUpdate (text : String) (statements : List Statement) : Prop :=
  StatementsOf (lexer.lex text.toList) statements

theorem phrase_free {n : Nat} {ts : List (List Char)} {x : Tree} (phrase : Phrase grammar n ts x)
    {w : List Char} (other : roleOf w = .other) : w ∉ ts :=
  fun inside => phrase.not_other w inside other

theorem StatementOf.unique {ts : List (List Char)} {s s' : Statement} (first : StatementOf ts s)
    (second : StatementOf ts s') : s = s' := by
  have noSign : (['='] : List Char) ∉ ["nop".toList] := by decide
  cases first with
  | nop =>
      generalize same : ["nop".toList] = ts at second noSign
      cases second with
      | nop => rfl
      | assign => exact absurd (List.mem_append_right _ List.mem_cons_self) noSign
  | @assign left right y x _ target value made =>
      generalize same : left ++ ['='] :: right = ts at second
      cases second with
      | nop =>
          rw [← same] at noSign
          exact absurd (List.mem_append_right _ List.mem_cons_self) noSign
      | assign target' value' made' =>
          obtain ⟨rfl, behind⟩ := part_of_append_eq same (phrase_free target rfl)
            (phrase_free target' rfl) (isTail_cons right) (isTail_cons _)
          cases behind
          rw [target.unambiguous target', value.unambiguous value', made'] at made
          exact (Option.some.inj made).symm

theorem StatementOf.free {ts : List (List Char)} {s : Statement} (first : StatementOf ts s) :
    [';'] ∉ ts := by
  cases first with
  | nop => decide
  | assign target value =>
      intro inside
      rcases List.mem_append.mp inside with left | right
      · exact phrase_free target rfl left
      · rcases List.mem_cons.mp right with sign | right
        · cases sign
        · exact phrase_free value rfl right

theorem StatementsOf.unique {ts : List (List Char)} {ss ss' : List Statement}
    (first : StatementsOf ts ss) (second : StatementsOf ts ss') : ss = ss' := by
  induction first generalizing ss' with
  | single one =>
      cases second with
      | single one' => rw [one.unique one']
      | more => exact absurd (List.mem_append_right _ List.mem_cons_self) one.free
  | @more ts ts' s rest one later ih =>
      generalize same : ts ++ [';'] :: ts' = whole at second
      cases second with
      | single one' =>
          rw [← same] at one'
          exact absurd (List.mem_append_right _ List.mem_cons_self) one'.free
      | more one' later' =>
          obtain ⟨rfl, behind⟩ := part_of_append_eq same one.free one'.free (isTail_cons _)
            (isTail_cons _)
          cases behind
          rw [one.unique one', ih later']

theorem ReadsUpdate.unique {text : String} {ss ss' : List Statement} (first : ReadsUpdate text ss)
    (second : ReadsUpdate text ss') : ss = ss' :=
  StatementsOf.unique first second

/-! ## Texts of statements -/

/-- The text is a sequence of statements. -/
def Update (text : String) (statements : List Statement) : Prop :=
  ∃ lexemes, lexer.Scans Boundary text.toList lexemes ∧ StatementsOf lexemes statements

theorem Update.reads {text : String} {ss : List Statement} (update : Update text ss) :
    ReadsUpdate text ss := by
  obtain ⟨lexemes, scans, statements⟩ := update
  unfold ReadsUpdate
  rwa [scans.cut]

theorem StatementsOf.append {ts ts' : List (List Char)} {ss ss' : List Statement}
    (first : StatementsOf ts ss) (second : StatementsOf ts' ss') :
    StatementsOf (ts ++ [';'] :: ts') (ss ++ ss') := by
  induction first with
  | single one => exact .more one second
  | more one _ ih =>
      rw [List.append_assoc, List.cons_append]
      exact .more one ih

theorem Update.append {text text' : String} {ss ss' : List Statement} (first : Update text ss)
    (second : Update text' ss') : Update (text ++ ";" ++ text') (ss ++ ss') := by
  obtain ⟨lexemes, scans, statements⟩ := first
  obtain ⟨lexemes', scans', statements'⟩ := second
  have semicolon : Closed ";" [[';']] := ⟨rfl, fun _ _ => rfl⟩
  refine ⟨lexemes ++ [';'] :: lexemes', ?_, statements.append statements'⟩
  rw [String.toList_append, String.toList_append, List.append_assoc]
  exact scans.append (semicolon.append_closed scans') rfl rfl

theorem update_nop : Update "nop" [.nop] :=
  ⟨["nop".toList], scans_word rfl, .single .nop⟩

/-- An assignment; no operand makes `==` of the sign in front of it. -/
theorem update_assign {text text' : String} {y x : Tree} {s : Statement} (target : Operand text y)
    (value : Expression text' x) (starts : StartsOperand text') (made : assignTo y x = some s) :
    Update (text ++ "=" ++ text') [s] := by
  obtain ⟨_, lexemes, scans, phrase⟩ := target
  obtain ⟨lexemes', scans', phrase'⟩ := value
  obtain ⟨c, rest, first, other⟩ := starts
  have sign : lexer.Scans (· ≠ '=') "=".toList [['=']] := by
    refine ⟨rfl, fun c other => ?_⟩
    change joinsLexeme ['='] c = false
    simp [joinsLexeme, isWordChar, other]
  refine ⟨lexemes ++ ['='] :: lexemes', ?_, .single (.assign phrase phrase' made)⟩
  rw [String.toList_append, String.toList_append, List.append_assoc]
  exact scans.append (sign.append scans' first other) rfl rfl

end Utot.Tchecker
