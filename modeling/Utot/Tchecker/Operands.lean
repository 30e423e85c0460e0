import Utot.Tchecker.Expressions

/-!
# Texts that are operands

How the texts of operands are put together.  An operand is read as one tree
wherever the character behind it cannot continue a word.
-/

namespace Utot.Tchecker

open Utap Uppaal Library

/-- The character does not continue a word. -/
def Boundary (c : Char) : Prop := isWordChar c = false

/-- The text does not continue an operator `=`. -/
def StartsOperand (text : String) : Prop := ∃ c rest, text.toList = c :: rest ∧ c ≠ '='

/-- The text is an operand of every operator. -/
def Operand (text : String) (tree : Tree) : Prop :=
  StartsOperand text ∧
    ∃ lexemes, lexer.Scans Boundary text.toList lexemes ∧ Phrase grammar grammar.top lexemes tree

/-- The text is an expression as a whole. -/
def Expression (text : String) (tree : Tree) : Prop :=
  ∃ lexemes, lexer.Scans Boundary text.toList lexemes ∧ Phrase grammar 0 lexemes tree

variable {text text' text'' : String} {x y z : Tree}

theorem StartsOperand.append (starts : StartsOperand text) (text' : String) :
    StartsOperand (text ++ text') := by
  obtain ⟨c, rest, first, other⟩ := starts
  exact ⟨c, rest ++ text'.toList, by rw [String.toList_append, first, List.cons_append], other⟩

theorem Operand.expression (operand : Operand text x) : Expression text x := by
  obtain ⟨_, lexemes, scans, phrase⟩ := operand
  exact ⟨lexemes, scans, phrase.expression grammar.positive (Nat.le_refl _)⟩

theorem Expression.reads (expression : Expression text x) : Reads text x := by
  obtain ⟨lexemes, scans, phrase⟩ := expression
  unfold Reads
  rw [scans.cut]
  exact phrase

/-! ## Brackets -/

/-- A text nothing can join. -/
abbrev Closed (text : String) (lexemes : List (List Char)) : Prop :=
  lexer.Scans (fun _ => True) text.toList lexemes

theorem closed_bracket : Closed ")" [[')']] := ⟨rfl, fun _ _ => rfl⟩

/-- An expression between two texts that nothing can join. -/
theorem scans_between {front : String} {first lexemes : List (List Char)} {c : Char}
    {rest : List Char} (opens : Closed front first)
    (scans : lexer.Scans Boundary text.toList lexemes) (back : String) {last : List (List Char)}
    (closes : Closed back last) (starts : back.toList = c :: rest) (boundary : Boundary c) :
    Closed (front ++ text ++ back) (first ++ (lexemes ++ last)) := by
  unfold Closed
  rw [String.toList_append, String.toList_append, List.append_assoc]
  exact opens.append_closed (scans.append closes starts boundary)

theorem Closed.operand {lexemes : List (List Char)} (closed : Closed text lexemes)
    (starts : StartsOperand text) (phrase : Phrase grammar grammar.top lexemes x) : Operand text x :=
  ⟨starts, lexemes, closed.weaken fun _ _ => trivial, phrase⟩

theorem Expression.group (inner : Expression text x) : Operand ("(" ++ text ++ ")") x := by
  obtain ⟨lexemes, scans, phrase⟩ := inner
  have opens : Closed "(" [['(']] := ⟨rfl, fun _ _ => rfl⟩
  have whole := scans_between opens scans ")" closed_bracket rfl rfl
  have starts : StartsOperand "(" := ⟨'(', [], rfl, by decide⟩
  exact whole.operand ((starts.append text).append ")") (.group rfl rfl rfl phrase)

theorem Expression.not (inner : Expression text x) : Operand ("!(" ++ text ++ ")") (.not x) := by
  obtain ⟨lexemes, scans, phrase⟩ := inner
  have opens : Closed "!(" [['!'], ['(']] := ⟨rfl, fun _ _ => rfl⟩
  have whole := scans_between opens scans ")" closed_bracket rfl rfl
  have starts : StartsOperand "!(" := ⟨'!', ['('], rfl, by decide⟩
  exact whole.operand ((starts.append text).append ")") (.unary rfl rfl (.group rfl rfl rfl phrase))

theorem Expression.negate (inner : Expression text x) : Operand ("-(" ++ text ++ ")") (.negate x) := by
  obtain ⟨lexemes, scans, phrase⟩ := inner
  have opens : Closed "-(" [['-'], ['(']] := ⟨rfl, fun _ _ => rfl⟩
  have whole := scans_between opens scans ")" closed_bracket rfl rfl
  have starts : StartsOperand "-(" := ⟨'-', ['('], rfl, by decide⟩
  exact whole.operand ((starts.append text).append ")") (.unary rfl rfl (.group rfl rfl rfl phrase))

/-! ## Operators -/

/-- An operator between two operands. -/
theorem Operand.between {op : String} {w : List Char} {c : Char} {rest : List Char} {n : Nat}
    {b : Tree → Tree → Tree} {f : Option (Tree → Tree)} (left : Operand text x)
    (right : Operand text' y) (closed : Closed op [w]) (starts : op.toList = c :: rest)
    (boundary : Boundary c) (isBinary : roleOf w = .binary n b f) (positive : 0 < n)
    (below : n < 6) : Expression (text ++ op ++ text') (b x y) := by
  obtain ⟨_, lexemes, scans, phrase⟩ := left
  obtain ⟨_, lexemes', scans', phrase'⟩ := right
  refine ⟨lexemes ++ w :: lexemes', ?_, phrase.between phrase' isBinary positive below⟩
  rw [String.toList_append, String.toList_append, List.append_assoc]
  exact scans.append (closed.append_closed scans') (by rw [starts, List.cons_append]) boundary

theorem Expression.choose (cond : Expression text x) (yes : Expression text' y)
    (no : Expression text'' z) :
    Operand ("(if " ++ text ++ " then " ++ text' ++ " else " ++ text'' ++ ")") (.choose x y z) := by
  obtain ⟨cs, scansC, phraseC⟩ := cond
  obtain ⟨ys, scansY, phraseY⟩ := yes
  obtain ⟨ns, scansN, phraseN⟩ := no
  have opens : Closed "(if " [['('], "if".toList] := ⟨rfl, fun _ _ => rfl⟩
  have middle : Closed " then " ["then".toList] := ⟨rfl, fun _ _ => rfl⟩
  have other : Closed " else " ["else".toList] := ⟨rfl, fun _ _ => rfl⟩
  have untilThen := scans_between opens scansC " then " middle rfl rfl
  have untilElse := scans_between untilThen scansY " else " other rfl rfl
  have whole := scans_between untilElse scansN ")" closed_bracket rfl rfl
  have inner : Phrase grammar 0 _ _ :=
    .choose (i := "if".toList) (t := "then".toList) (e := "else".toList) rfl rfl rfl
      phraseC phraseY phraseN
  have phrase : Phrase grammar grammar.top _ _ :=
    .group (l := ['(']) (r := [')']) rfl rfl rfl inner
  have starts : StartsOperand "(if " := ⟨'(', "if ".toList, rfl, by decide⟩
  apply whole.operand ((((((starts.append text).append _).append text').append _).append text'').append _)
  simp only [List.append_assoc, List.cons_append, List.nil_append] at phrase ⊢
  exact phrase

/-! ## Names and numbers -/

/-- Letters, digits and `_` make one lexeme. -/
theorem scans_word {c : Char} {rest : List Char} (word : (c :: rest).all isWordChar = true) :
    lexer.Scans Boundary (c :: rest) [c :: rest] := by
  have joined : ∀ front d back, c :: rest = front ++ d :: back →
      lexer.joins ([] ++ front) d = true := by
    intro front d back split
    rw [split, List.all_append, List.all_cons, Bool.and_eq_true, Bool.and_eq_true] at word
    change joinsLexeme front d = true
    rw [joinsLexeme, if_pos word.1, word.2.1, Bool.or_true]
  have run := lexer.scan_run joined
  rw [List.nil_append] at run
  have noBlank : (c == ' ') = false := by
    rw [List.all_cons, Bool.and_eq_true] at word
    apply beq_eq_false_iff_ne.mpr
    rintro rfl
    exact absurd word.1 (by decide)
  constructor
  · have notBlank : lexer.blank (c :: rest) = false := by
      change (c :: rest).all (· == ' ') = false
      rw [List.all_cons, noBlank, Bool.false_and]
    rw [Lexer.lex, run, Lexer.flush, notBlank]
    rfl
  · intro d boundary
    rw [run]
    change joinsLexeme (c :: rest) d = false
    rw [joinsLexeme, if_pos word, show isWordChar d = false from boundary]
    rfl

theorem not_digit {c : Char} (start : isWordStart c = true) : c.isDigit = false := by
  rw [Bool.eq_false_iff]
  intro digit
  have within : 48 ≤ c.val ∧ c.val ≤ 57 := by
    change (decide (48 ≤ c.val) && decide (c.val ≤ 57)) = true at digit
    rw [Bool.and_eq_true, decide_eq_true_eq, decide_eq_true_eq] at digit
    exact digit
  obtain ⟨lower, upper⟩ := within
  change ((decide (65 ≤ c.val ∧ c.val ≤ 90) ||
    decide (97 ≤ c.val) && decide (c.val ≤ 122)) || c == '_') = true at start
  simp only [Bool.or_eq_true, Bool.and_eq_true, decide_eq_true_eq, beq_iff_eq] at start
  rcases start with (⟨capital, _⟩ | ⟨small, _⟩) | rfl
  · exact absurd (UInt32.le_trans capital upper) (by decide)
  · exact absurd (UInt32.le_trans small upper) (by decide)
  · exact absurd upper (by decide)

theorem role_name {id : String} (isName : IsName id) :
    grammar.role id.toList = .atom (.name id) (some (.elem id)) := by
  obtain ⟨⟨c, rest, text, start⟩, _, noKeyword⟩ := isName
  have noDigits : (c :: rest).all Char.isDigit = false := by
    rw [List.all_cons, not_digit start, Bool.false_and]
  have other {keyword : String} (inside : keyword ∈ keywords) : id.toList ≠ keyword.toList :=
    fun same => noKeyword (String.toList_inj.mp same ▸ inside)
  change roleOf id.toList = _
  rw [text, roleOf, noDigits, if_neg Bool.false_ne_true, if_pos start, wordRole, ← text,
    if_neg (other (by decide)), if_neg (other (by decide)), if_neg (other (by decide)),
    String.ofList_toList]

theorem IsName.starts {id : String} (isName : IsName id) : StartsOperand id := by
  obtain ⟨⟨c, rest, text, start⟩, _⟩ := isName
  have other : c ≠ '=' := by
    rintro rfl
    exact absurd start (by decide)
  exact ⟨c, rest, text, other⟩

theorem operand_name {id : String} (isName : IsName id) : Operand id (.name id) := by
  have starts := isName.starts
  obtain ⟨⟨c, rest, text, start⟩, word, noKeyword⟩ := isName
  refine ⟨starts, [id.toList], ?_, .atom rfl (role_name ⟨⟨c, rest, text, start⟩, word, noKeyword⟩)⟩
  rw [text] at word ⊢
  exact scans_word word

theorem Expression.subscript {id : String} (isName : IsName id) (index : Expression text x) :
    Operand (id ++ "[" ++ text ++ "]") (.elem id x) := by
  obtain ⟨lexemes, scans, phrase⟩ := index
  have isAtom := role_name isName
  have starts := isName.starts
  obtain ⟨⟨c, rest, word, start⟩, letters, _⟩ := isName
  rw [word] at letters isAtom
  have front : lexer.Scans Boundary id.toList [c :: rest] := by
    rw [word]
    exact scans_word letters
  have opens : Closed (id ++ "[") ([c :: rest] ++ [['[']]) := by
    unfold Closed
    rw [String.toList_append]
    have bracket : Closed "[" [['[']] := ⟨rfl, fun _ _ => rfl⟩
    exact front.append bracket rfl rfl
  have closes : Closed "]" [[']']] := ⟨rfl, fun _ _ => rfl⟩
  have whole := scans_between opens scans "]" closes rfl rfl
  have phrase : Phrase grammar grammar.top _ _ :=
    .subscript (l := ['[']) (r := [']']) rfl isAtom rfl rfl phrase
  apply whole.operand (((starts.append _).append text).append _)
  simp only [List.cons_append, List.nil_append] at phrase ⊢
  exact phrase

/-- The tree of the text of an integer. -/
def numberTree : Int → Tree
  | .ofNat n => .number n
  | .negSucc n => .negate (.number (n + 1))

theorem value_numberTree {V : Type} (A : Arithmetic V) (τ : Valuation V) (i : Int) :
    (numberTree i).value A τ = some (A.ofInt i) := by
  cases i with
  | ofNat n => rfl
  | negSucc n =>
      change some (A.negate (A.ofInt _)) = _
      rw [A.negate_ofInt]
      rfl

theorem operand_digits (n : Nat) : Operand n.repr (.number n) := by
  have digits : ∀ c ∈ n.repr.toList, c.isDigit = true := by
    rw [Nat.toList_repr]
    exact fun c inside => Nat.isDigit_of_mem_toDigits (by decide) (by decide) inside
  have value : Nat.ofDigitChars 10 n.repr.toList 0 = n := by
    rw [Nat.toList_repr]
    exact Nat.ofDigitChars_ten_toDigits
  have word : n.repr.toList.all isWordChar = true := by
    rw [List.all_eq_true]
    intro c inside
    rw [isWordChar, Char.isAlphanum, digits c inside, Bool.or_true, Bool.true_or]
  cases text : n.repr.toList with
  | nil =>
      rw [Nat.toList_repr] at text
      exact absurd text Nat.toDigits_ne_nil
  | cons c rest =>
      rw [text] at word digits value
      have isNumber : grammar.role (c :: rest) = .atom (.number n) none := by
        change roleOf (c :: rest) = _
        rw [roleOf, if_pos (List.all_eq_true.mpr digits), value]
      have starts : StartsOperand n.repr := by
        refine ⟨c, rest, text, ?_⟩
        rintro rfl
        exact absurd (digits '=' List.mem_cons_self) (by decide)
      refine ⟨starts, [c :: rest], ?_, .atom rfl isNumber⟩
      rw [text]
      exact scans_word word

theorem operand_number (i : Int) : Operand (toString i) (numberTree i) := by
  change Operand (Int.repr i) (numberTree i)
  cases i with
  | ofNat n => exact operand_digits n
  | negSucc n =>
      obtain ⟨_, lexemes, scans, phrase⟩ := operand_digits (n + 1)
      have sign : Closed "-" [['-']] := ⟨rfl, fun _ _ => rfl⟩
      have starts : StartsOperand "-" := ⟨'-', [], rfl, by decide⟩
      refine ⟨starts.append (n + 1).repr, ['-'] :: lexemes, ?_, .unary rfl rfl phrase⟩
      change lexer.Scans Boundary ("-" ++ (n + 1).repr).toList _
      rw [String.toList_append]
      exact sign.append_closed scans

end Utot.Tchecker
