import Utot.Library.Frame
import Utot.Translate.Declarations

/-!
# What declarations write

The functions that print declarations only write.  A declaration is a comment,
and then lines of a clock or an integer variable, of the cells of an array, or
comments on channels.
-/

namespace Utot

open Utap Library Tchecker

/-! ## Outputs -/

/-- The kinds of channels; their declarations are comments. -/
def isEventKind (k : Kind) : Bool := k == .prim .channel || k == .pre .broadcast || k == .pre .urgent

/-- The outputs for a cell of an array. -/
inductive CellWrites (name : String) (type : Ty) : Output → Prop where
  | event (channel : isEventKind type.kind = true) :
      CellWrites name type (.comment [.text "event to synchronize: ", .text name])
  | clock (other : isEventKind type.kind = false) : CellWrites name type (.line (.clock name 1))
  | intvar (other : isEventKind type.kind = false) (min max init : Int) :
      CellWrites name type (.line (.intvar min max init name 1))
  | message (level : Nat) (args : List Arg) : CellWrites name type (.message level args)

/-- The indices of the cells `s_enumerate_array_elements_decl` visits, and the
type of the cells; the innermost index comes first. -/
inductive CellIndices (env : Env) (p : Option Instance) : Ty → List Int → List Int → Ty → Prop where
  | cell {type : Ty} (S : List Int) (single : type.kind ≠ .array) : CellIndices env p type S S type
  | sub {subtype size type : Ty} {S S' : List Int} {min max i : Int}
      (bounds : computeRangeBounds env p size = .ok (min, max)) (lower : min ≤ i) (upper : i ≤ max)
      (later : CellIndices env p subtype (i :: S) S' type) :
      CellIndices env p (.array subtype size) S S' type

/-- The outputs for a variable. -/
inductive DeclarationWrites (env : Env) (p : Option Instance) (ctx : ContextPrefix) (s : Symbol) :
    Output → Prop where
  | header : DeclarationWrites env p ctx s
      (.comment [.text (env.getName s), .text ":", .type (stripLabels (env.getType s))])
  | event : DeclarationWrites env p ctx s
      (.comment [.text "global event: ", .text (addPrefix ctx (env.getName s))])
  | oneDim : DeclarationWrites env p ctx s (.comment [.text "one dim array."])
  | oneDimClock : DeclarationWrites env p ctx s (.comment [.text "one dim clock array."])
  | clock (other : isEventKind (stripLabels (env.getType s)).kind = false)
      (single : (stripLabels (env.getType s)).kind ≠ .array) :
      DeclarationWrites env p ctx s (.line (.clock (addPrefix ctx (env.getName s)) 1))
  | intvar (other : isEventKind (stripLabels (env.getType s)).kind = false)
      (single : (stripLabels (env.getType s)).kind ≠ .array) (min max init : Int) :
      DeclarationWrites env p ctx s
        (.line (.intvar min max init (addPrefix ctx (env.getName s)) 1))
  | clockArray {found : Int × Int × Ty × Option Expr}
      (array : (stripLabels (env.getType s)).kind = .array)
      (whole : oneDimDeclaration env p (stripLabels (env.getType s)) (env.initialiser s) =
        .ok (some found)) (size : Int) :
      DeclarationWrites env p ctx s (.line (.clock (addPrefix ctx (env.getName s)) size))
  | intvarArray {found : Int × Int × Ty × Option Expr}
      (array : (stripLabels (env.getType s)).kind = .array)
      (whole : oneDimDeclaration env p (stripLabels (env.getType s)) (env.initialiser s) =
        .ok (some found)) (min max init size : Int) :
      DeclarationWrites env p ctx s
        (.line (.intvar min max init (addPrefix ctx (env.getName s)) size))
  | cell {S : List Int} {type : Ty} {o : Output}
      (split : oneDimDeclaration env p (stripLabels (env.getType s)) (env.initialiser s) = .ok none)
      (indices : CellIndices env p (stripLabels (env.getType s)) [] S type)
      (written : CellWrites (cellName (addPrefix ctx (env.getName s)) S) type o) :
      DeclarationWrites env p ctx s o
  | message (level : Nat) (args : List Arg) : DeclarationWrites env p ctx s (.message level args)

/-- The outputs of declarations whose names have a property. -/
def DeclaresOnly (names : String → Prop) : Output → Prop
  | .line (.clock id _) => names id
  | .line (.intvar _ _ _ id _) => names id
  | .comment _ => True
  | .message _ _ => True
  | _ => False

/-- The outputs of a declaration. -/
abbrev IsDeclaration : Output → Prop := DeclaresOnly fun _ => True

theorem DeclarationWrites.only {env : Env} {p : Option Instance} {ctx : ContextPrefix} {s : Symbol}
    {o : Output} {names : String → Prop} (written : DeclarationWrites env p ctx s o)
    (named : ∀ S, names (cellName (addPrefix ctx (env.getName s)) S)) : DeclaresOnly names o := by
  cases written with
  | clock other => exact named []
  | intvar other => exact named []
  | clockArray array whole => exact named []
  | intvarArray array whole => exact named []
  | cell split indices written =>
      cases written with
      | clock other => exact named _
      | intvar other min max init => exact named _
      | _ => trivial
  | _ => trivial

/-! ## The functions that print -/

theorem keeps_forRange {R : Frame TrState} {min max : Int} {body : Int → Tr Unit}
    (round : ∀ i, min ≤ i → i ≤ max → Keeps R (body i)) : Keeps R (forRange min max body) := by
  refine Keeps.bind (Keeps.forM fun i listed => ?_) fun _ => ?_
  · obtain ⟨lower, upper⟩ := mem_intRange.mp listed
    exact round i lower upper
  · exact Keeps.branch (Keeps.lift _) (Keeps.ret _)

section

variable {R : Frame TrState} (env : Env) (p : Option Instance)

theorem keeps_msg (messages : ∀ st level args, R.rel st (st.write (.message level args)))
    (verboseLevel level : Nat) (args : List Arg) : Keeps R (msg verboseLevel level args) :=
  Keeps.branch (Keeps.update fun st => messages st level args) (Keeps.ret _)

theorem keeps_intvar {min max init size : Int} {id : String}
    (line : ∀ st, R.rel st (st.write (.line (.intvar min max init id size)))) :
    Keeps R (intvar min max init id size) :=
  Keeps.bind (Keeps.lift _) fun _ => Keeps.bind (Keeps.lift _) fun _ => Keeps.update line

theorem keeps_integerVariable {vname : String}
    (messages : ∀ st level args, R.rel st (st.write (.message level args)))
    (line : ∀ st min max init, R.rel st (st.write (.line (.intvar min max init vname 1))))
    (type : Ty) (init : Option Expr) : Keeps R (sOutputIntegerVariable env p vname type init) := by
  refine Keeps.bind (Keeps.lift _) fun _ => Keeps.bind (Keeps.lift _) fun bounds => ?_
  have finish : ∀ initval : Int, Keeps R (do
      if ¬ ((bounds.getD (initval, initval)).1 ≤ initval ∧
          initval ≤ (bounds.getD (initval, initval)).2) then
        fromExcept (trErr [.text "initial value ", .int initval,
          .text " is out of the domain of variable ", .text vname])
      intvar (bounds.getD (initval, initval)).1 (bounds.getD (initval, initval)).2 initval vname 1 :
        Tr Unit) := by
    intro initval
    split
    · exact Keeps.bind (Keeps.lift _) fun _ => keeps_intvar fun st => line st _ _ _
    · exact keeps_intvar fun st => line st _ _ _
  cases init with
  | some e => exact Keeps.bind (Keeps.lift _) finish
  | none =>
      cases bounds with
      | none => exact Keeps.bind (Keeps.lift _) finish
      | some bounds =>
          exact Keeps.bind (keeps_msg messages _ _ _) fun _ => Keeps.bind (Keeps.ret _) finish

theorem keeps_declareCell {name : String} {type : Ty}
    (writes : ∀ st o, CellWrites name type o → R.rel st (st.write o)) (init : Option Expr) :
    Keeps R (declareCell env p name type init) := by
  unfold declareCell
  split
  · rename_i kind
    exact Keeps.update fun st => writes st _ (.event (by rw [kind]; rfl))
  · rename_i kind
    exact Keeps.update fun st => writes st _ (.event (by rw [kind]; rfl))
  · rename_i kind
    exact Keeps.update fun st => writes st _ (.event (by rw [kind]; rfl))
  · rename_i kind
    exact Keeps.update fun st => writes st _ (.clock (by rw [kind]; rfl))
  · rename_i noChannel noBroadcast noUrgent _
    have other : isEventKind type.kind = false := by
      simp only [isEventKind, Bool.or_eq_false_iff, beq_eq_false_iff_ne]
      exact ⟨⟨noChannel, noBroadcast⟩, noUrgent⟩
    exact keeps_integerVariable env p (fun st level args => writes st _ (.message level args))
      (fun st min max init => writes st _ (.intvar other min max init)) type init

theorem keeps_arrayElements {arrayname : String} {type : Ty} {init : Option Expr} {S : List Int}
    (writes : ∀ st o S' cell, CellIndices env p type S S' cell →
      CellWrites (cellName arrayname S') cell o → R.rel st (st.write o)) :
    Keeps R (sEnumerateArrayElementsDecl env p arrayname type init S) := by
  fun_induction sEnumerateArrayElementsDecl env p arrayname type init S with
  | case1 sub size init S cells =>
      refine Keeps.liftBind fun bounds computed => Keeps.bind (Keeps.lift _) fun count => ?_
      have loop : Keeps R (forRange bounds.1 bounds.2 fun i => do
          let cell ← fromExcept (initialCell init (i - bounds.1))
          sEnumerateArrayElementsDecl env p arrayname sub cell (i :: S)) :=
        keeps_forRange fun i lower upper => Keeps.bind (Keeps.lift _) fun cell =>
          cells i cell fun st o S' type later written =>
            writes st o S' type (.sub computed lower upper later) written
      cases init with
      | none => exact loop
      | some e =>
          dsimp only
          split
          · exact Keeps.bind (Keeps.lift _) fun _ => loop
          · exact loop
  | case2 type init S notArray =>
      have single : type.kind ≠ .array := by
        intro kind
        cases type with
        | array sub size => exact notArray sub size rfl
        | _ => cases kind
      exact keeps_declareCell env p (fun st o written => writes st o S _ (.cell S single) written) init

theorem keeps_oneDimArray {vname : String} {size : Int}
    (comment : ∀ st, R.rel st (st.write (.comment [.text "one dim array."])))
    (line : ∀ st min max init, R.rel st (st.write (.line (.intvar min max init vname size))))
    (eltype : Ty) (init : Option Expr) :
    Keeps R (sDeclareOneDimArray env p vname size eltype init) := by
  refine Keeps.bind (Keeps.update comment) fun _ => Keeps.bind (Keeps.lift _) fun bounds => ?_
  have finish : ∀ ival : Int, Keeps R (if bounds.1 ≤ ival ∧ ival ≤ bounds.2 then
        intvar bounds.1 bounds.2 ival vname size
      else
        fromExcept (trErr [.text "initial value ", .int ival, .text " is out of range [",
          .int bounds.1, .text ",", .int bounds.2, .text "] for array '", .text vname,
          .text "'."]) : Tr Unit) := fun ival =>
    Keeps.branch (keeps_intvar fun st => line st _ _ _) (Keeps.lift _)
  cases init with
  | none => exact Keeps.bind (Keeps.ret _) finish
  | some e => exact Keeps.bind (Keeps.lift _) finish

/-- A variable writes nothing but its outputs. -/
theorem keeps_declareVariable {ctx : ContextPrefix} {s : Symbol}
    (writes : ∀ st o, DeclarationWrites env p ctx s o → R.rel st (st.write o)) :
    Keeps R (declareVariable env p ctx s) := by
  have variable' (other : isEventKind (stripLabels (env.getType s)).kind = false)
      (single : (stripLabels (env.getType s)).kind ≠ .array) :
      Keeps R (sOutputIntegerVariable env p (addPrefix ctx (env.getName s))
        (stripLabels (env.getType s)) (env.initialiser s)) :=
    keeps_integerVariable env p (fun st level args => writes st _ (.message level args))
      (fun st min max init => writes st _ (.intvar other single min max init)) _ _
  refine Keeps.bind (Keeps.update fun st => writes st _ .header) fun _ => ?_
  dsimp only
  split
  · rename_i kind
    exact variable' (by rw [kind]; rfl) (by rw [kind]; decide)
  · rename_i kind
    exact variable' (by rw [kind]; rfl) (by rw [kind]; decide)
  · rename_i kind
    exact variable' (by rw [kind]; rfl) (by rw [kind]; decide)
  · exact Keeps.update fun st => writes st _ .event
  · exact Keeps.update fun st => writes st _ .event
  · exact Keeps.update fun st => writes st _ .event
  · rename_i kind
    exact Keeps.update fun st => writes st _ (.clock (by rw [kind]; rfl) (by rw [kind]; decide))
  · rename_i array
    refine Keeps.liftBind fun oneDim decided => ?_
    cases oneDim with
    | none =>
        exact keeps_arrayElements env p fun st o S cell indices written =>
          writes st o (.cell decided indices written)
    | some found =>
        obtain ⟨minsz, maxsz, basetype, initval⟩ := found
        refine Keeps.bind (Keeps.lift _) fun sz => Keeps.branch ?_ ?_
        · exact Keeps.bind (Keeps.update fun st => writes st _ .oneDimClock) fun _ =>
            Keeps.update fun st => writes st _ (.clockArray array decided sz)
        · exact keeps_oneDimArray env p (fun st => writes st _ .oneDim)
            (fun st min max init => writes st _ (.intvarArray array decided min max init sz))
            basetype initval
  · exact Keeps.lift _

/-- Declarations write nothing but the outputs of their variables. -/
theorem keeps_declarations {ctx : ContextPrefix} {decl : Declarations}
    (writes : ∀ s ∈ visitedVariables p decl, ∀ st o, DeclarationWrites env p ctx s o →
      R.rel st (st.write o)) : Keeps R (translateDeclarations env p ctx decl) :=
  Keeps.forM fun s listed => keeps_declareVariable env p (writes s listed)

end

/-- Declarations only write, and what they write is a declaration of a variable
of the list or of one of its cells. -/
theorem keeps_translateDeclarations {R : Frame TrState} {names : String → Prop}
    (writes : ∀ s o, DeclaresOnly names o → R.rel s (s.write o)) (env : Env) (p : Option Instance)
    {ctx : ContextPrefix} {decl : Declarations}
    (named : ∀ s ∈ decl.vars, ∀ S, names (cellName (addPrefix ctx (env.getName s)) S)) :
    Keeps R (translateDeclarations env p ctx decl) := by
  refine keeps_declarations env p fun s listed st o written => writes st o (written.only ?_)
  unfold visitedVariables at listed
  split at listed
  · exact named s (List.mem_of_mem_tail listed)
  · exact named s listed

end Utot
