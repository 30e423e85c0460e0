import Utot.Meaning.Safety
import Utot.Translate.Expressions

/-!
# Constant folding

What `eval_integer_constant` returns is the value of the expression in every
state of the model, unless the evaluation has misread something: the evaluator
takes the operands of any initialiser for the cells of the array, be the array a
variable or its initialiser an operator.
-/

namespace Utot

open Utap Uppaal

/-! ## Folded values -/

/-- The expression has the value `n` in every state of the model. -/
def KeepsValue (env : Env) (p : Option Instance) (e : Expr) (n : Int) : Prop :=
  ∀ (V : Type) (A : Arithmetic V) (f : State V → Option V), Means A p e (.value f) →
    ∀ σ, GivesConstants A env p σ → f σ = some (A.ofInt n)

section

variable {env : Env} {p : Option Instance} {scope : List Symbol} {e : Expr}

theorem keepsValue_of_evalAux (checked : Checked env p scope e) (typed : TypeChecked env p e)
    (right : ¬ Misreads env p e) {depth : Nat} {n : Int} (evaluated : evalAux env depth p e = .ok n) :
    KeepsValue env p e n := by
  have value := (yields_of_evalAux typed evaluated).exactly right
  exact fun V A f means σ given =>
    value_of_evaluates checked (evaluates_of_yieldsExactly value) means given

/-- What `eval_integer_constant` returns for an expression whose evaluation misreads
nothing is its value in every state, and so are the indices that
`translate_event_expression` and `translate_expression` print behind a `_`. -/
theorem folding_sound (checked : Checked env p scope e) (typed : TypeChecked env p e)
    (right : ¬ Misreads env p e) :
    (∀ n, evalIntegerConstant env p e = .ok n → KeepsValue env p e n) ∧
    (∀ depth a t ctx text, translateEventAux env depth p (.binary .array a e t) ctx = .ok text →
      ∃ front n, text = front ++ "_" ++ toString n ∧ KeepsValue env p e n) ∧
    ∀ depth a t ctx text bounds, isOneDimArrayVariable env p a = .ok (false, bounds) →
      translateAux env depth p (.binary .array a e t) ctx = .ok text →
        ∃ front n, text = front ++ "_" ++ toString n ∧ KeepsValue env p e n := by
  refine ⟨fun n => keepsValue_of_evalAux checked typed right, ?_, ?_⟩
  · intro depth a t ctx text printed
    cases depth with
    | zero => cases printed
    | succ depth =>
        obtain ⟨_, _, printed⟩ := Res.bind_eq_ok.mp printed
        obtain ⟨_, _, printed⟩ := Res.bind_eq_ok.mp printed
        obtain ⟨_, _, printed⟩ := Res.bind_eq_ok.mp printed
        dsimp only at printed
        split at printed
        · obtain ⟨front, _, printed⟩ := Res.bind_eq_ok.mp printed
          obtain ⟨index, evaluated, printed⟩ := Res.bind_eq_ok.mp printed
          cases printed
          exact ⟨front, index, rfl, keepsValue_of_evalAux checked typed right evaluated⟩
        · cases printed
  · intro depth a t ctx text bounds flattened printed
    cases depth with
    | zero => cases printed
    | succ depth =>
        obtain ⟨⟨oneDim, minsz, maxsz⟩, decided, printed⟩ := Res.bind_eq_ok.mp printed
        rw [flattened] at decided
        cases decided
        obtain ⟨index, evaluated, printed⟩ := Res.bind_eq_ok.mp printed
        split at printed
        · obtain ⟨front, _, printed⟩ := Res.bind_eq_ok.mp printed
          cases printed
          exact ⟨front, index, rfl, keepsValue_of_evalAux checked typed right evaluated⟩
        · cases printed

end

/-! ## A cell of an initialised array as an index -/

/-- `int[0,1]`. -/
def bitType : Ty := .range (.prim .int) (.constant 0 (.prim .int)) (.constant 1 (.prim .int))

/-- `int[0,1] k[int[0,1]]`, or a constant array. -/
def bitArray (constant : Bool) : Ty :=
  .array (if constant then .pre .constant bitType else bitType) bitType

/-- The array `k` with the initialiser `{ 0, 1 }`, and `chan c[int[0,1]]`. -/
def bitEnv (constant : Bool) : Env :=
  envOfSymbols [⟨"t(0)", .prim .clock, false, some ⟨none⟩⟩,
    ⟨"k", bitArray constant, false, some ⟨some (.nary .list
      [.constant 0 (.prim .int), .constant 1 (.prim .int)] (bitArray constant))⟩⟩,
    ⟨"c", .array (.prim .channel) bitType, false, some ⟨none⟩⟩]

/-- `k[0]`. -/
def bitCell (constant : Bool) : Expr :=
  .binary .array (.identifier 1 (bitArray constant)) (.constant 0 (.prim .int))
    (if constant then .pre .constant bitType else bitType)

/-- The state after `k[0] = 1`. -/
def bitSet : State Int := State.set (fun _ indices => indices.head?) 1 [0] 1

theorem checked_bitCell (constant : Bool) :
    Checked (bitEnv constant) none [1, 2] (bitCell constant) := by
  have closed (s : Symbol) : mapped? none s = none := rfl
  have array : Checked (bitEnv constant) none [1, 2] (.identifier 1 (bitArray constant)) :=
    .ofDeclared closed rfl (by decide)
  apply Checked.ofCell _ array (.ofConstant closed 0 _)
  cases constant <;> rfl

theorem typeChecked_bit (constant : Bool) (v : Int) (fits : IsInt v) :
    TypeChecked (bitEnv constant) none (.constant v (.prim .int)) :=
  .node ⟨fits, fun _ => rfl⟩ fun _ listed => absurd listed List.not_mem_nil

theorem typeChecked_bitCell (constant : Bool) : TypeChecked (bitEnv constant) none (bitCell constant) := by
  have zero := typeChecked_bit constant 0 ⟨by decide, by decide⟩
  have one := typeChecked_bit constant 1 ⟨by decide, by decide⟩
  have listed : callees (bitEnv constant) none (bitCell constant) =
      [.constant 0 (.prim .int), .constant 0 (.prim .int), .constant 1 (.prim .int),
        .constant 0 (.prim .int), .constant 1 (.prim .int)] := rfl
  refine .node rfl fun x inside => ?_
  rw [listed] at inside
  simp only [List.mem_cons, List.not_mem_nil, or_false] at inside
  rcases inside with rfl | rfl | rfl | rfl | rfl
  · exact zero
  · exact zero
  · exact one
  · exact zero
  · exact one

theorem not_misreads_bitCell : ¬ Misreads (bitEnv true) none (bitCell true) := by
  have entries {init : Expr} (given : (bitEnv true).initialiser 1 = some init) :
      ∀ x ∈ init.subs, ∃ v, x = .constant v (.prim .int) := by
    cases given
    intro x listed
    rcases List.mem_pair.mp listed with rfl | rfl <;> exact ⟨_, rfl⟩
  rintro ⟨x, reached, misread⟩
  rcases reached.cases_head with rfl | ⟨y, calls, later⟩
  · cases misread with
    | operand _ _ given _ other =>
        cases given
        exact other ⟨rfl, rfl, _, _, rfl, rfl⟩
    | entry _ _ given found _ other => exact other (converted_eq rfl)
  · obtain ⟨v, rfl⟩ : ∃ v, y = .constant v (.prim .int) := by
      cases calls with
      | left _ kind => rcases kind with kind | kind | kind <;> cases kind
      | right _ operator => cases operator
      | index => exact ⟨0, rfl⟩
      | lower _ _ sized _ ranged =>
          cases sized
          cases ranged
          exact ⟨0, rfl⟩
      | upper _ _ sized _ ranged =>
          cases sized
          cases ranged
          exact ⟨1, rfl⟩
      | entry _ _ given found => exact entries given _ (List.mem_of_getElem? found)
    exact not_misreads_constant v _ ⟨x, later, misread⟩

/-- With a constant array `k`, the index `k[0]` of a channel is 0 in every state. -/
theorem folding_sound_constant : KeepsValue (bitEnv true) none (bitCell true) 0 :=
  (folding_sound (checked_bitCell true) (typeChecked_bitCell true) not_misreads_bitCell).1 0 rfl

/-- A variable array `k` is taken for its initialiser: `k[0]` is folded to 0, and is
1 after the update `k[0] = 1`. -/
theorem folding_freezes_cell :
    Checked (bitEnv false) none [1, 2] (bitCell false) ∧ TypeChecked (bitEnv false) none (bitCell false) ∧
      evalIntegerConstant (bitEnv false) none (bitCell false) = .ok 0 ∧
      translateEventExpression (bitEnv false) none (.binary .array
        (.identifier 2 (.array (.prim .channel) bitType)) (bitCell false) (.prim .channel)) [] =
          .ok "c_0" ∧
      ¬ KeepsValue (bitEnv false) none (bitCell false) 0 := by
  refine ⟨checked_bitCell false, typeChecked_bitCell false, rfl, rfl, fun keeps => ?_⟩
  have means : Means integers none (bitCell false) _ :=
    .read (.cell (.declared rfl) (.integer rfl))
  have noConstants : ∀ c, ((bitEnv false).getType c).isConstant = true →
      (bitEnv false).initialiser c = none := by
    intro c constant
    match c with
    | 0 => rfl
    | 1 => cases constant
    | 2 => rfl
    | _ + 3 => rfl
  have value := keeps Int integers _ means bitSet fun c init indices v constant given => by
    rw [noConstants c constant] at given
    cases given
  cases value

end Utot
