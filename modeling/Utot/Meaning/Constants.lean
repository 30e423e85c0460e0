import Utot.Layout.Checked
import Utot.Uppaal.Meaning

/-!
# Constant expressions keep their value

A constant expression has the same value in every state that gives constants the
values of their initialisers.
-/

namespace Utot

open Utap Uppaal

section

variable {V : Type} {A : Arithmetic V} {env : Env} {p : Option Instance} {scope : List Symbol}
  {e l r : Expr} {t : Ty} {s : Symbol} {f : State V → Option V} {σ : State V}

/-! ## What the value of a node is made of -/

theorem means_not (means : Means A p (.unary .not e t) (.value f)) :
    ∃ g, Means A p e (.value g) ∧ f = fun σ => A.notOf (g σ) := by
  cases means with
  | not operand => exact ⟨_, operand, rfl⟩
  | read place => cases place

theorem means_unaryMinus (means : Means A p (.unary .unaryMinus e t) (.value f)) :
    ∃ g, Means A p e (.value g) ∧ f = fun σ => (g σ).map A.negate := by
  cases means with
  | unaryMinus operand => exact ⟨_, operand, rfl⟩
  | read place => cases place

theorem means_binary {k : BinaryKind} (operator : isOperator k = true)
    (means : Means A p (.binary k l r t) (.value f)) :
    ∃ g h, Means A p l (.value g) ∧ Means A p r (.value h) ∧
      f = fun σ => (g σ).bind fun a => (h σ).bind fun b => A.operate k a b := by
  cases means with
  | binary _ left right => exact ⟨_, _, left, right, rfl⟩
  | and => cases operator
  | or => cases operator
  | read place =>
      cases place
      cases operator

theorem means_and (means : Means A p (.binary .and l r t) (.value f)) :
    ∃ g h, Means A p l (.value g) ∧ Means A p r (.value h) ∧ f = fun σ => A.andOf (g σ) (h σ) := by
  cases means with
  | and left right => exact ⟨_, _, left, right, rfl⟩
  | binary operator => cases operator
  | read place => cases place

theorem means_or (means : Means A p (.binary .or l r t) (.value f)) :
    ∃ g h, Means A p l (.value g) ∧ Means A p r (.value h) ∧ f = fun σ => A.orOf (g σ) (h σ) := by
  cases means with
  | or left right => exact ⟨_, _, left, right, rfl⟩
  | binary operator => cases operator
  | read place => cases place

theorem means_inlineIf {c y n : Expr} (means : Means A p (.inlineIf c y n t) (.value f)) :
    ∃ g h k, Means A p c (.value g) ∧ Means A p y (.value h) ∧ Means A p n (.value k) ∧
      f = fun σ => A.chooseOf (g σ) (h σ) (k σ) := by
  cases means with
  | inlineIf cond yes no => exact ⟨_, _, _, cond, yes, no, rfl⟩
  | read place => cases place

theorem means_array {a i : Expr} (means : Means A p (.binary .array a i t) (.value f)) :
    ∃ c indices g, Means A p a (.place c indices) ∧ Means A p i (.value g) ∧
      f = fun σ => (indexed A indices g σ).bind (σ c) := by
  cases means with
  | binary operator => cases operator
  | read place =>
      cases place with
      | cell array at' => exact ⟨_, _, _, array, at', rfl⟩

theorem means_declared (unbound : mapped? p s = none) (means : Means A p (.identifier s t) (.value f)) :
    f = fun σ => σ s [] := by
  cases means with
  | parameter bound =>
      rw [unbound] at bound
      cases bound
  | converted bound =>
      rw [unbound] at bound
      cases bound
  | read place =>
      cases place with
      | declared => rfl
      | parameter bound =>
          rw [unbound] at bound
          cases bound

theorem place_parameter {c : Symbol} {argument : Expr} {indices : State V → Option (List Int)}
    (bound : mapped? p s = some argument) (means : Means A p (.identifier s t) (.place c indices)) :
    converts t argument.type = false ∧ Means A p argument (.place c indices) := by
  cases means with
  | declared unbound =>
      rw [bound] at unbound
      cases unbound
  | parameter bound' direct later =>
      rw [bound] at bound'
      cases bound'
      exact ⟨direct, later⟩

/-- A parameter has the value of its argument, or the truth value it is converted to. -/
theorem means_parameter {argument : Expr} (bound : mapped? p s = some argument)
    (means : Means A p (.identifier s t) (.value f)) :
    converts t argument.type = false ∧ Means A p argument (.value f) ∨
      converts t argument.type = true ∧
        ∃ g, Means A p argument (.value g) ∧ f = fun σ => A.truthOf (g σ) := by
  cases means with
  | parameter bound' direct later =>
      rw [bound] at bound'
      cases bound'
      exact .inl ⟨direct, later⟩
  | converted bound' other later =>
      rw [bound] at bound'
      cases bound'
      exact .inr ⟨other, _, later, rfl⟩
  | read place =>
      obtain ⟨direct, later⟩ := place_parameter bound place
      exact .inl ⟨direct, .read later⟩

theorem place_declared {c : Symbol} {indices : State V → Option (List Int)}
    (unbound : mapped? p s = none) (means : Means A p (.identifier s t) (.place c indices)) :
    c = s ∧ indices = fun _ => some [] := by
  cases means with
  | declared => exact ⟨rfl, rfl⟩
  | parameter bound =>
      rw [unbound] at bound
      cases bound

/-! ## Constants -/

theorem isOperator_of_operate {k : BinaryKind} {a b n : Int} (value : operate k a b = some n) :
    isOperator k = true := by
  cases k <;> first | rfl | cases value

theorem ofBool_ne_zero (v : Int) : A.ofBool (A.isTrue (A.ofInt v)) = A.ofInt (truth (v ≠ 0)) := by
  rw [A.isTrue_ofInt]
  rfl

/-- A cell of what an expression denotes is one of the cell it denotes. -/
theorem value_of_read {indices : List Int} {v : V} (cells : ∀ c g, Means A p e (.place c g) →
      ∃ is, g σ = some is ∧ σ c (is ++ indices) = some v) (whole : indices = []) {c : Symbol}
    {g : State V → Option (List Int)} (place : Means A p e (.place c g)) :
    (g σ).bind (σ c) = some v := by
  obtain ⟨is, denoted, value⟩ := cells c g place
  rw [whole, List.append_nil] at value
  rw [denoted, Option.bind_some, value]

/-- A constant expression has its value in every state, and the cells of a constant
array have theirs. -/
theorem value_of_contains {indices : List Int} {v : Int} (checked : Checked env p scope e)
    (value : Contains env p e indices v) (constants : GivesConstants A env p σ) :
    (∀ f, indices = [] → Means A p e (.value f) → f σ = some (A.ofInt v)) ∧
      ∀ c g, Means A p e (.place c g) →
        ∃ is, g σ = some is ∧ σ c (is ++ indices) = some (A.ofInt v) := by
  induction value with
  | integer isInt =>
      refine ⟨fun f _ means => ?_, fun c g means => (by cases means)⟩
      cases means with
      | integer => rfl
      | boolean _ notInt =>
          rw [isInt] at notInt
          cases notInt
      | read place => cases place
  | boolean isBool notInt =>
      refine ⟨fun f _ means => ?_, fun c g means => (by cases means)⟩
      cases means with
      | integer isInt =>
          rw [isInt] at notInt
          cases notInt
      | boolean => rfl
      | read place => cases place
  | @initialised s t init indices v constant given value _ =>
      have unbound := checked.unbound_of_initialiser given
      have stored := constants s init indices v constant given value
      refine ⟨fun f whole means => ?_, fun c g means => ?_⟩
      · rw [means_declared unbound means, ← whole]
        exact stored
      · obtain ⟨rfl, rfl⟩ := place_declared unbound means
        exact ⟨[], rfl, stored⟩
  | @bound s t argument indices v _ _ given _ ih =>
      have typed : t = env.getType s := checked.identifiers s t .self
      obtain ⟨values, places⟩ := ih (checked.argument given)
      refine ⟨fun f whole means => ?_, fun c g means => ?_⟩
      · rcases means_parameter given means with ⟨direct, later⟩ | ⟨other, g, later, rfl⟩
        · rw [← typed, converted_eq direct]
          exact values f whole later
        · dsimp only
          rw [values g whole later, ← typed, converted, if_pos other]
          exact congrArg some (ofBool_ne_zero v)
      · obtain ⟨direct, later⟩ := place_parameter given means
        rw [← typed, converted_eq direct]
        exact places c g later
  | not _ ih =>
      refine ⟨fun f _ means => ?_, fun c g means => (by cases means)⟩
      obtain ⟨g, operand, rfl⟩ := means_not means
      dsimp only
      rw [(ih checked.unary).1 g rfl operand, Arithmetic.notOf, Option.map_some, A.isTrue_ofInt]
      simp [Arithmetic.ofBool]
  | unaryMinus _ ih =>
      refine ⟨fun f _ means => ?_, fun c g means => (by cases means)⟩
      obtain ⟨g, operand, rfl⟩ := means_unaryMinus means
      dsimp only
      rw [(ih checked.unary).1 g rfl operand, Option.map_some, A.negate_ofInt]
  | binary _ _ result ihl ihr =>
      refine ⟨fun f _ means => ?_, fun c g means => ?_⟩
      · obtain ⟨g, h, left, right, rfl⟩ := means_binary (isOperator_of_operate result) means
        dsimp only
        rw [(ihl checked.left).1 g rfl left, (ihr checked.right).1 h rfl right]
        exact A.operate_ofInt _ _ _ _ result
      · cases means
        cases result
  | andFalse _ ih =>
      refine ⟨fun f _ means => ?_, fun c g means => (by cases means)⟩
      obtain ⟨g, h, left, right, rfl⟩ := means_and means
      dsimp only
      rw [(ih checked.left).1 g rfl left]
      exact A.andOf_ofInt 0 _ rfl
  | andTrue _ holds _ ihl ihr =>
      refine ⟨fun f _ means => ?_, fun c g means => (by cases means)⟩
      obtain ⟨g, h, left, right, rfl⟩ := means_and means
      dsimp only
      rw [(ihl checked.left).1 g rfl left, (ihr checked.right).1 h rfl right, Arithmetic.andOf,
        Option.bind_some, A.isTrue_ofInt, if_pos (decide_eq_true holds), Option.map_some, ofBool_ne_zero]
  | orTrue _ holds ih =>
      refine ⟨fun f _ means => ?_, fun c g means => (by cases means)⟩
      obtain ⟨g, h, left, right, rfl⟩ := means_or means
      dsimp only
      rw [(ih checked.left).1 g rfl left, Arithmetic.orOf, Option.bind_some, A.isTrue_ofInt,
        if_pos (decide_eq_true holds)]
      rfl
  | orFalse _ _ ihl ihr =>
      refine ⟨fun f _ means => ?_, fun c g means => (by cases means)⟩
      obtain ⟨g, h, left, right, rfl⟩ := means_or means
      dsimp only
      rw [(ihl checked.left).1 g rfl left, (ihr checked.right).1 h rfl right, Arithmetic.orOf,
        Option.bind_some, A.isTrue_ofInt, if_neg (by decide), Option.map_some, ofBool_ne_zero]
  | chooseYes _ holds _ ihc ihv =>
      refine ⟨fun f whole means => ?_, fun c g means => (by cases means)⟩
      obtain ⟨g, h, k, cond, yes, no, rfl⟩ := means_inlineIf means
      dsimp only
      rw [(ihc (checked.within (.cond .self))).1 g rfl cond, Arithmetic.chooseOf, Option.bind_some,
        A.isTrue_ofInt, if_pos (decide_eq_true holds)]
      exact (ihv (checked.within (.yes .self))).1 h whole yes
  | chooseNo _ _ ihc ihv =>
      refine ⟨fun f whole means => ?_, fun c g means => (by cases means)⟩
      obtain ⟨g, h, k, cond, yes, no, rfl⟩ := means_inlineIf means
      dsimp only
      rw [(ihc (checked.within (.cond .self))).1 g rfl cond, Arithmetic.chooseOf, Option.bind_some,
        A.isTrue_ofInt, if_neg (by decide)]
      exact (ihv (checked.within (.no .self))).1 k whole no
  | @cell a i t index indices v _ _ ihi ihv =>
      have cells : ∀ c g, Means A p (.binary .array a i t) (.place c g) →
          ∃ is, g σ = some is ∧ σ c (is ++ indices) = some (A.ofInt v) := by
        intro c g means
        cases means with
        | @cell _ _ _ _ front f array at' =>
            obtain ⟨is, denoted, value⟩ := (ihv checked.left).2 c front array
            refine ⟨is ++ [index], ?_, by rwa [List.append_assoc]⟩
            rw [indexed, denoted, (ihi checked.right).1 f rfl at', Option.bind_some, Option.bind_some,
              A.toInt_ofInt, Option.map_some]
      refine ⟨fun f whole means => ?_, cells⟩
      obtain ⟨c, front, g, array, at', rfl⟩ := means_array means
      exact value_of_read cells whole (.cell array at')
  | entry =>
      refine ⟨fun f whole => (by cases whole), fun c g means => (by cases means)⟩

/-- A constant expression has its value in every state. -/
theorem value_of_evaluates {v : Int} (checked : Checked env p scope e) (value : Evaluates env p e v)
    (means : Means A p e (.value f)) (constants : GivesConstants A env p σ) :
    f σ = some (A.ofInt v) :=
  (value_of_contains checked value constants).1 f rfl means

end

end Utot
