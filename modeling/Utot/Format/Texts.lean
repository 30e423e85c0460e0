import Utot.Format.Printed
import Utot.Meaning.Operands
import Utot.Run.Faults

/-!
# Characters of printed texts

The texts of expressions and updates contain no separator, and the names in them
are identifiers of TChecker, if the names they are put together from are.
-/

namespace Utot

open Utap Library Tchecker

/-! ## Tokens -/

theorem isToken_append {front back : List Char} (token : isToken front = true)
    (word : ∀ c ∈ back, isWordChar c = true) : isToken (front ++ back) = true := by
  cases front with
  | nil => cases token
  | cons c rest =>
      obtain ⟨start, all⟩ := (Bool.and_eq_true _ _).mp token
      change (isWordStart c && (c :: (rest ++ back)).all isWordChar) = true
      rw [start, Bool.true_and, ← List.cons_append, List.all_append, all, Bool.true_and,
        List.all_eq_true]
      exact word

theorem isToken_concat {front back : String} (token : IsToken front)
    (word : ∀ c ∈ back.toList, isWordChar c = true) : IsToken (front ++ back) := by
  unfold IsToken
  rw [String.toList_append]
  exact isToken_append token word

/-- A name of the lexer without its other characters. -/
theorem isToken_of_lexed {env : Env} {s : Symbol} (lexed : Lexed env s)
    (plain : ∀ c ∈ foreignChars, c ∉ (env.getName s).toList) : IsToken (env.getName s) := by
  unfold Lexed at lexed
  unfold IsToken
  generalize (env.getName s).toList = name at lexed plain
  cases name with
  | nil => cases lexed
  | cons c rest =>
      obtain ⟨start, all⟩ := (Bool.and_eq_true _ _).mp lexed
      refine (Bool.and_eq_true _ _).mpr ⟨start, List.all_eq_true.mpr fun d inside => ?_⟩
      have char := List.all_eq_true.mp all d inside
      simp only [isIdentifierChar, Bool.or_eq_true, beq_iff_eq] at char
      rcases char with (word | rfl) | rfl
      · simpa [isWordChar] using word
      · exact absurd inside (plain '$' (by decide))
      · exact absurd inside (plain '#' (by decide))

theorem isWordChar_joined {texts : List String} (word : ∀ text ∈ texts, text.toList.all isWordChar = true) :
    ∀ c ∈ joined '_' String.toList texts, isWordChar c = true := by
  intro c inside
  obtain ⟨text, listed, member⟩ := List.mem_flatMap.mp inside
  rcases List.mem_cons.mp member with rfl | later
  · rfl
  · exact List.all_eq_true.mp (word text listed) c later

theorem isWordChar_indices {indices : List Int} (natural : ∀ i ∈ indices, 0 ≤ i) :
    ∀ c ∈ joined '_' intText indices, isWordChar c = true := by
  intro c inside
  obtain ⟨i, listed, member⟩ := List.mem_flatMap.mp inside
  rcases List.mem_cons.mp member with rfl | later
  · rfl
  · exact isWordChar_intText (natural i listed) c later

/-- A name with natural indices behind it. -/
theorem isToken_cellName {name : String} {S : List Int} (token : IsToken name)
    (natural : ∀ i ∈ S, 0 ≤ i) : IsToken (cellName name S) := by
  have text := toList_cellName name S.reverse
  rw [List.reverse_reverse] at text
  unfold IsToken
  rw [text]
  exact isToken_append token
    (isWordChar_indices fun i inside => natural i (List.mem_reverse.mp inside))

/-- The parts of a prefix are tokens. -/
def PlainPrefix (ctx : ContextPrefix) : Prop := ∀ part ∈ ctx, IsToken part

theorem isToken_stringOf {ctx : ContextPrefix} (plain : PlainPrefix ctx) (nonempty : ctx ≠ []) :
    IsToken (stringOf ctx) := by
  cases ctx with
  | nil => exact absurd rfl nonempty
  | cons first rest =>
      unfold IsToken
      rw [toList_stringOf]
      refine isToken_append (plain first List.mem_cons_self) (isWordChar_joined fun text listed => ?_)
      exact (wordChars_of_isToken (plain text (List.mem_cons_of_mem _ listed))).2

theorem isToken_addPrefix {ctx : ContextPrefix} {name : String} (plain : PlainPrefix ctx)
    (token : IsToken name) : IsToken (addPrefix ctx name) := by
  cases ctx with
  | nil => exact token
  | cons first rest =>
      unfold addPrefix
      rw [if_neg (by simp)]
      refine isToken_concat (isToken_concat (isToken_stringOf plain (List.cons_ne_nil _ _)) ?_) ?_
      · exact List.all_eq_true.mp (by decide)
      · exact List.all_eq_true.mp (wordChars_of_isToken token).2

theorem isToken_symbolName {env : Env} {ctx : ContextPrefix} {s : Symbol} (plain : PlainPrefix ctx)
    (token : IsToken (env.getName s)) : IsToken (symbolName env ctx s) := by
  unfold symbolName
  split
  · exact isToken_addPrefix plain token
  · exact token

theorem isToken_assignment {env : Env} {s : Symbol} {value : Int} (token : IsToken (env.getName s))
    (natural : 0 ≤ value) : IsToken (sAssignmentToString env s value) := by
  unfold IsToken
  rw [toList_sAssignmentToString]
  refine isToken_append token fun c inside => ?_
  rcases List.mem_cons.mp inside with rfl | digit
  · rfl
  · exact isWordChar_intText natural c digit

/-! ## Names in expressions -/

section

variable {env : Env} {p : Option Instance} {ctx : ContextPrefix}

/-- The text of a reference is its name. -/
theorem translateAux_variableName {depth : Nat} {e : Expr} {c : Symbol} {indices : List Int}
    {text : String} (name : VariableName env p e c indices)
    (printed : translateAux env depth p e ctx = .ok text) :
    text = cellName (symbolName env ctx c) indices.reverse := by
  induction name generalizing depth text with
  | declared unbound =>
      cases depth with
      | zero => cases printed
      | succ depth =>
          simp only [translateAux, unbound] at printed
          cases printed
          rfl
  | parameter bound _ ih =>
      cases depth with
      | zero => cases printed
      | succ depth =>
          simp only [translateAux, bound] at printed
          exact ih printed
  | cell isSplit _ at' ih =>
      cases depth with
      | zero => cases printed
      | succ depth =>
          obtain ⟨min, max, decided⟩ := isSplit
          obtain ⟨answer, decided', printed⟩ := Res.bind_eq_ok.mp printed
          rw [decided] at decided'
          cases decided'
          obtain ⟨index, evaluated, printed⟩ := Res.bind_eq_ok.mp printed
          rw [at'] at evaluated
          cases evaluated
          split at printed
          · obtain ⟨front, array, printed⟩ := Res.bind_eq_ok.mp printed
            cases printed
            rw [ih array, cellName_append]
          · cases printed
  | sync all =>
      obtain ⟨_, _, decided⟩ := all (.constant 0 (.prim .int))
      cases decided

/-- The text of a channel reference is the name of a channel cell. -/
theorem translateEventAux_channelName {depth : Nat} {e : Expr} {text : String}
    (printed : translateEventAux env depth p e ctx = .ok text) :
    ∃ c indices, ChannelName env p e c indices ∧
      text = cellName (symbolName env ctx c) indices.reverse := by
  induction depth generalizing e text with
  | zero => cases printed
  | succ depth ih =>
      cases e with
      | identifier s t =>
          cases bound : mapped? p s with
          | none =>
              simp only [translateEventAux, bound] at printed
              cases printed
              exact ⟨s, [], .declared bound, rfl⟩
          | some argument =>
              simp only [translateEventAux, bound] at printed
              obtain ⟨c, indices, later, same⟩ := ih printed
              exact ⟨c, indices, .parameter bound later, same⟩
      | sync kind channel =>
          obtain ⟨c, indices, later, same⟩ := ih (show translateEventAux env depth p channel ctx = _ from printed)
          exact ⟨c, indices, .sync (fun _ => trivial) later, same⟩
      | binary kind a i t =>
          cases kind with
          | array =>
              obtain ⟨_, _, printed⟩ := Res.bind_eq_ok.mp printed
              obtain ⟨_, _, printed⟩ := Res.bind_eq_ok.mp printed
              obtain ⟨_, _, printed⟩ := Res.bind_eq_ok.mp printed
              dsimp only at printed
              split at printed
              · obtain ⟨front, array, printed⟩ := Res.bind_eq_ok.mp printed
                obtain ⟨index, at', printed⟩ := Res.bind_eq_ok.mp printed
                cases printed
                obtain ⟨c, indices, later, rfl⟩ := ih array
                exact ⟨c, indices ++ [index], .cell trivial later at', (cellName_append _ _ _).symm⟩
              · cases printed
          | _ => cases printed
      | _ => cases printed

/-! ## Separators -/

theorem unseparated_of_all {text : String} (clean : text.toList.all (fun c => !separators.contains c) = true) :
    Unseparated text.toList := by
  intro c inside separator
  have none := List.all_eq_true.mp clean c inside
  rw [List.contains_iff_mem.mpr separator] at none
  cases none

theorem unseparated_concat {front back : String} (first : Unseparated front.toList)
    (second : Unseparated back.toList) : Unseparated (front ++ back).toList := by
  rw [String.toList_append]
  exact first.append second

theorem unseparated_offset (minsz : Int) : Unseparated (offsetText minsz).toList := by
  unfold offsetText
  split
  · exact unseparated_concat (unseparated_of_all rfl) (unseparated_int minsz)
  · exact unseparated_of_all rfl

theorem unseparated_binaryText {k : BinaryKind} {op : String} (listed : binaryText k = some op) :
    Unseparated op.toList := by
  cases k <;> cases listed <;> exact unseparated_of_all rfl

/-- The names printed in the expression contain no separator. -/
def CleanNames (env : Env) (p : Option Instance) (ctx : ContextPrefix) (e : Expr) : Prop :=
  ∀ s t, PrintedIn env p (.identifier s t) e → mapped? p s = none →
    Unseparated (symbolName env ctx s).toList

theorem unseparated_identifier {s : Symbol} {t : Ty} {text : String}
    {translate : Expr → Res String}
    (clean : CleanNames env p ctx (.identifier s t))
    (arguments : ∀ argument, CleanNames env p ctx argument → translate argument = .ok text →
      Unseparated text.toList)
    (printed : (match mapped? p s with
      | some argument => translate argument
      | none => .ok (symbolName env ctx s)) = .ok text) : Unseparated text.toList := by
  cases bound : mapped? p s with
  | none =>
      rw [bound] at printed
      cases printed
      exact clean s t .self bound
  | some argument =>
      rw [bound] at printed
      exact arguments argument (fun s' t' inside => clean s' t' (.argument bound inside)) printed

/-- The text of a channel reference contains no separator. -/
theorem translateEventAux_unseparated {depth : Nat} {e : Expr} {text : String}
    (clean : CleanNames env p ctx e) (printed : translateEventAux env depth p e ctx = .ok text) :
    Unseparated text.toList := by
  induction depth generalizing e text with
  | zero => cases printed
  | succ depth ih =>
      cases e with
      | identifier s t =>
          exact unseparated_identifier clean (fun argument later => ih later) printed
      | sync kind channel => exact ih (fun s t inside => clean s t (.channel inside)) printed
      | binary kind a i t =>
          cases kind with
          | array =>
              obtain ⟨_, _, printed⟩ := Res.bind_eq_ok.mp printed
              obtain ⟨_, _, printed⟩ := Res.bind_eq_ok.mp printed
              obtain ⟨_, _, printed⟩ := Res.bind_eq_ok.mp printed
              dsimp only at printed
              split at printed
              · obtain ⟨front, array, printed⟩ := Res.bind_eq_ok.mp printed
                obtain ⟨index, _, printed⟩ := Res.bind_eq_ok.mp printed
                cases printed
                have first := ih (fun s t inside => clean s t (.left inside)) array
                exact unseparated_concat (unseparated_concat first (unseparated_of_all rfl))
                  (unseparated_int index)
              · cases printed
          | _ => cases printed
      | _ => cases printed

theorem translateSubscript_unseparated {depth : Nat} {a i : Expr} {t : Ty} {text : String}
    (clean : CleanNames env p ctx (.binary .array a i t))
    (array : ∀ {text}, CleanNames env p ctx a → translateAux env depth p a ctx = .ok text →
      Unseparated text.toList)
    (index : ∀ {text}, CleanNames env p ctx i → translateAux env depth p i ctx = .ok text →
      Unseparated text.toList)
    (printed : translateAux env (depth + 1) p (.binary .array a i t) ctx = .ok text) :
    Unseparated text.toList := by
  have front : CleanNames env p ctx a := fun s t inside => clean s t (.left inside)
  obtain ⟨⟨answer, min, max⟩, decided, printed⟩ := Res.bind_eq_ok.mp printed
  cases answer with
  | true =>
      obtain ⟨name, first, printed⟩ := Res.bind_eq_ok.mp printed
      obtain ⟨inner, second, printed⟩ := Res.bind_eq_ok.mp printed
      cases printed
      have inside := index (fun s t inside => clean s t (.index decided inside)) second
      simp only [String.append_assoc]
      refine unseparated_concat (array front first) (unseparated_concat (?_ : Unseparated ['[']) ?_)
      · exact @unseparated_of_all "[" rfl
      · exact unseparated_concat inside
          (unseparated_concat (unseparated_offset min) (unseparated_of_all rfl))
  | false =>
      obtain ⟨value, _, printed⟩ := Res.bind_eq_ok.mp printed
      split at printed
      · obtain ⟨name, first, printed⟩ := Res.bind_eq_ok.mp printed
        cases printed
        exact unseparated_concat (unseparated_concat (array front first) (unseparated_of_all rfl))
          (unseparated_int value)
      · cases printed

/-- The text of an expression contains no separator. -/
theorem translateAux_unseparated {depth : Nat} {e : Expr} {text : String}
    (clean : CleanNames env p ctx e) (printed : translateAux env depth p e ctx = .ok text) :
    Unseparated text.toList := by
  induction depth generalizing e text with
  | zero => cases printed
  | succ depth ih =>
      cases e with
      | identifier s t =>
          exact unseparated_identifier clean (fun argument later => ih later) printed
      | constant v t =>
          obtain ⟨value, _, printed⟩ := Res.bind_eq_ok.mp printed
          cases printed
          exact unseparated_int value
      | unary k x t =>
          have operand : CleanNames env p ctx x := fun s t inside => clean s t (.unary inside)
          cases k with
          | not =>
              obtain ⟨inner, first, printed⟩ := Res.bind_eq_ok.mp printed
              cases printed
              exact unseparated_concat (unseparated_concat (unseparated_of_all rfl) (ih operand first))
                (unseparated_of_all rfl)
          | unaryMinus =>
              obtain ⟨inner, first, printed⟩ := Res.bind_eq_ok.mp printed
              cases printed
              exact unseparated_concat (unseparated_concat (unseparated_of_all rfl) (ih operand first))
                (unseparated_of_all rfl)
          | _ => exact absurd printed (translateAux_rejectedUnary (by decide) (by decide))
      | binary k l r t =>
          have left : CleanNames env p ctx l := fun s t inside => clean s t (.left inside)
          cases listed : binaryText k with
          | some op =>
              have right : CleanNames env p ctx r := by
                refine fun s t inside => clean s t (.right ?_ inside)
                rintro rfl
                cases listed
              rw [translateAux_binary listed] at printed
              obtain ⟨front, first, printed⟩ := Res.bind_eq_ok.mp printed
              obtain ⟨back, second, printed⟩ := Res.bind_eq_ok.mp printed
              cases printed
              simp only [String.append_assoc]
              refine unseparated_concat (unseparated_of_all rfl) (unseparated_concat (ih left first) ?_)
              refine unseparated_concat (unseparated_of_all rfl) ?_
              refine unseparated_concat (unseparated_binaryText listed) ?_
              exact unseparated_concat (unseparated_of_all rfl)
                (unseparated_concat (ih right second) (unseparated_of_all rfl))
          | none =>
              by_cases isOr : k = .or
              · subst isOr
                have right : CleanNames env p ctx r := fun s t inside =>
                  clean s t (.right (by decide) inside)
                obtain ⟨front, first, printed⟩ := Res.bind_eq_ok.mp printed
                obtain ⟨back, second, printed⟩ := Res.bind_eq_ok.mp printed
                cases printed
                simp only [String.append_assoc]
                refine unseparated_concat (unseparated_of_all rfl) (unseparated_concat (ih left first) ?_)
                exact unseparated_concat (unseparated_of_all rfl)
                  (unseparated_concat (ih right second) (unseparated_of_all rfl))
              · by_cases isArray : k = .array
                · subst isArray
                  exact translateSubscript_unseparated clean (fun clean => ih clean)
                    (fun clean => ih clean) printed
                · exact absurd printed (translateAux_rejectedBinary listed isOr isArray)
      | inlineIf c y n t =>
          obtain ⟨cond, first, printed⟩ := Res.bind_eq_ok.mp printed
          obtain ⟨yes, second, printed⟩ := Res.bind_eq_ok.mp printed
          obtain ⟨no, third, printed⟩ := Res.bind_eq_ok.mp printed
          cases printed
          have first := ih (fun s t inside => clean s t (.cond inside)) first
          have second := ih (fun s t inside => clean s t (.yes inside)) second
          have third := ih (fun s t inside => clean s t (.no inside)) third
          simp only [String.append_assoc]
          refine unseparated_concat (unseparated_of_all rfl) (unseparated_concat first ?_)
          refine unseparated_concat (unseparated_of_all rfl) (unseparated_concat second ?_)
          exact unseparated_concat (unseparated_of_all rfl)
            (unseparated_concat third (unseparated_of_all rfl))
      | nary k es t =>
          rw [translateAux] at printed
          exact absurd printed rejectExpression_ne_ok
      | sync kind channel =>
          have event : translateEventAux env depth p (.sync kind channel) ctx = .ok text := printed
          exact translateEventAux_unseparated clean event

theorem unseparated_expression {e : Expr} {text : String} (clean : CleanNames env p ctx e)
    (printed : translateExpression env p e ctx = .ok text) : Unseparated text.toList :=
  translateAux_unseparated clean printed

/-! ## Updates -/

theorem unseparated_assignBinaryOp {var arg : Expr} {op text : String} (target : CleanNames env p ctx var)
    (value : CleanNames env p ctx arg) (sign : Unseparated op.toList)
    (printed : assignBinaryOp env p var op arg ctx = .ok text) : Unseparated text.toList := by
  obtain ⟨first, printed₁, printed⟩ := Res.bind_eq_ok.mp printed
  obtain ⟨second, printed₂, printed⟩ := Res.bind_eq_ok.mp printed
  obtain ⟨third, printed₃, printed⟩ := Res.bind_eq_ok.mp printed
  cases printed
  have before := unseparated_concat (unseparated_expression target printed₁)
    (@unseparated_of_all "=" rfl)
  have operator := unseparated_concat
    (unseparated_concat before (unseparated_expression target printed₂)) sign
  exact unseparated_concat operator (unseparated_expression value printed₃)

theorem unseparated_assignOp {k : BinaryKind} {op : String} (listed : assignOpText k = some op) :
    Unseparated op.toList := by
  cases k <;> cases listed <;> exact unseparated_of_all rfl

theorem unseparated_incDec {k : UnaryKind} {op : String} (listed : incDecText k = some op) :
    Unseparated op.toList := by
  cases k <;> cases listed <;> exact unseparated_of_all rfl

theorem default_ne_ok {e : Expr} {text : String} :
    (if isUnknownToAssignment e then rejectExpression e none else notAnAssignment e) ≠ .ok text := by
  intro printed
  split at printed
  · exact rejectExpression_ne_ok printed
  · cases printed

/-- The text of an update contains no separator. -/
theorem translateAssignment_unseparated {e : Expr} {text : String} (clean : CleanNames env p ctx e)
    (printed : translateAssignment env p e ctx = .ok text) : Unseparated text.toList := by
  fun_induction translateAssignment env p e ctx generalizing text with
  | case1 l r t =>
      obtain ⟨target, first, printed⟩ := Res.bind_eq_ok.mp printed
      obtain ⟨value, second, printed⟩ := Res.bind_eq_ok.mp printed
      cases printed
      have before := unseparated_expression (fun s t inside => clean s t (.left inside)) first
      have behind := unseparated_expression
        (fun s t inside => clean s t (.right (by decide) inside)) second
      exact unseparated_concat (unseparated_concat before (@unseparated_of_all "=" rfl)) behind
  | case2 l r t ihl ihr =>
      obtain ⟨front, first, printed⟩ := Res.bind_eq_ok.mp printed
      obtain ⟨back, second, printed⟩ := Res.bind_eq_ok.mp printed
      cases printed
      have before := ihl (fun s t inside => clean s t (.left inside)) first
      have behind := ihr (fun s t inside => clean s t (.right (by decide) inside)) second
      exact unseparated_concat (unseparated_concat before (@unseparated_of_all ";" rfl)) behind
  | case3 k l r t noAssign noComma op listed =>
      have noArray : k ≠ .array := by
        rintro rfl
        cases listed
      exact unseparated_assignBinaryOp (fun s t inside => clean s t (.left inside))
        (fun s t inside => clean s t (.right noArray inside)) (unseparated_assignOp listed) printed
  | case4 => cases printed
  | case5 => exact absurd printed default_ne_ok
  | case6 => exact absurd printed default_ne_ok
  | case7 k x t op listed =>
      refine unseparated_assignBinaryOp (fun s t inside => clean s t (.unary inside)) ?_
        (unseparated_incDec listed) printed
      rintro s t ⟨⟩
  | case8 => exact absurd printed default_ne_ok
  | case9 => exact absurd printed default_ne_ok
  | case10 v t =>
      obtain ⟨value, _, printed⟩ := Res.bind_eq_ok.mp printed
      split at printed
      · cases printed
      · cases printed
        exact unseparated_of_all rfl
  | case11 => exact absurd printed default_ne_ok
  | case12 => exact absurd printed default_ne_ok

/-! ## Attributes -/

/-- The keys and values contain no separator. -/
def CleanAttributes (attr : Attributes) : Prop :=
  ∀ kv ∈ attr.toList, Unseparated kv.1.toList ∧ Unseparated kv.2.toList

theorem cleanAttributes_empty : CleanAttributes ∅ := by
  intro kv inside
  have found := Std.TreeMap.mem_toList_iff_getElem?_eq_some.mp inside
  simp at found

theorem CleanAttributes.insert {attr : Attributes} (clean : CleanAttributes attr) {key value : String}
    (keyClean : Unseparated key.toList) (valueClean : Unseparated value.toList) :
    CleanAttributes (attr.insert key value) := by
  intro kv inside
  have found := Std.TreeMap.mem_toList_iff_getElem?_eq_some.mp inside
  rw [Std.TreeMap.getElem?_insert] at found
  split at found
  · rename_i same
    cases found
    rw [Std.compare_eq_iff_eq] at same
    rw [← same]
    exact ⟨keyClean, valueClean⟩
  · exact clean kv (Std.TreeMap.mem_toList_iff_getElem?_eq_some.mpr found)

/-- The attributes of a location whose invariant is clean. -/
theorem stateAttributes_clean {q : Instance} {st : State} {attr : Attributes}
    (clean : ∀ e, st.invariant = some e → CleanNames env (some q) ctx e)
    (computed : stateAttributes env ctx q st = .ok attr) : CleanAttributes attr := by
  have flag {c : Prop} [Decidable c] {attr : Attributes} {key : String} (before : CleanAttributes attr)
      (keyClean : Unseparated key.toList) :
      CleanAttributes (if c then attr.insert key "" else attr) := by
    split
    · exact before.insert keyClean (unseparated_of_all rfl)
    · exact before
  have flags {first : Attributes} (start : CleanAttributes first) :=
    flag (c := st.uid = q.templ.init)
      (flag (c := (env.getType st.uid).is (.pre .urgent) = true)
        (flag (c := (env.getType st.uid).is (.pre .committed) = true) start
          (@unseparated_of_all "committed" rfl)) (@unseparated_of_all "urgent" rfl))
      (@unseparated_of_all "initial" rfl)
  unfold stateAttributes at computed
  cases given : st.invariant with
  | none =>
      rw [given] at computed
      obtain ⟨first, same, computed⟩ := Res.bind_eq_ok.mp computed
      cases same
      cases computed
      exact flags cleanAttributes_empty
  | some e =>
      rw [given] at computed
      obtain ⟨text, printed, computed⟩ := Res.bind_eq_ok.mp computed
      obtain ⟨first, same, computed⟩ := Res.bind_eq_ok.mp computed
      cases same
      cases computed
      exact flags (cleanAttributes_empty.insert (@unseparated_of_all "invariant" rfl)
        (unseparated_expression (clean e given) printed))

/-- The attributes of an edge whose guard and update are clean. -/
theorem edgeAttributes_clean {q : Instance} {e : Edge} {attr : Attributes}
    (guard : CleanNames env (some q) ctx e.guard) (update : CleanNames env (some q) ctx e.assign)
    (computed : edgeAttributes env e ctx q = .ok attr) : CleanAttributes attr := by
  obtain ⟨text, printed, computed⟩ := Res.bind_eq_ok.mp computed
  obtain ⟨action, printed', computed⟩ := Res.bind_eq_ok.mp computed
  cases computed
  have start : CleanAttributes
      (if text ≠ "1" then (∅ : Attributes).insert "provided" text else ∅) := by
    split
    · exact cleanAttributes_empty.insert (@unseparated_of_all "provided" rfl)
        (unseparated_expression guard printed)
    · exact cleanAttributes_empty
  split
  · exact start.insert (@unseparated_of_all "do" rfl) (translateAssignment_unseparated update printed')
  · exact start

end

end Utot
