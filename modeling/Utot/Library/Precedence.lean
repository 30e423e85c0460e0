import Mathlib.Data.List.Basic

/-!
# Expressions read by precedence

A C-like expression grammar: binary operators of several levels that associate
to the left, unary operators that bind tightest, parentheses, subscripts behind
names, and a conditional that binds weakest.  A sequence of tokens has at most
one reading.
-/

namespace Utot.Library

variable {T A : Type}

/-- What a token can be.  A binary operator may be a unary one as well, a name
may be subscripted. -/
inductive Role (A : Type) where
  | atom (value : A) (subscript : Option (A → A))
  | unary (build : A → A)
  | binary (level : Nat) (build : A → A → A) (front : Option (A → A))
  | lpar | rpar | lbra | rbra | ifT | thenT | elseT
  | other

/-- The meaning of a token in front of an operand. -/
def Role.front? : Role A → Option (A → A)
  | .unary build => some build
  | .binary _ _ front => front
  | _ => none

/-- An operator of a chain and its right operand. -/
@[ext] structure Link (T A : Type) where
  op : T
  build : A → A → A
  words : List T
  value : A

def Link.tokens (l : Link T A) : List T := l.op :: l.words

/-- A grammar: the roles of tokens, the level of operands of unary operators, and
the meaning of the conditional.  Binary operators have levels from 1. -/
structure ExprGrammar (T A : Type) where
  role : T → Role A
  top : Nat
  positive : 0 < top
  choose : A → A → A → A

/-- The phrases of each level; 0 is the level of a whole expression. -/
inductive Phrase (G : ExprGrammar T A) : Nat → List T → A → Prop where
  | choose {i t e : T} {cond yes no : List T} {x a b : A} (isIf : G.role i = .ifT)
      (isThen : G.role t = .thenT) (isElse : G.role e = .elseT) (first : Phrase G 0 cond x)
      (second : Phrase G 0 yes a) (third : Phrase G 0 no b) :
      Phrase G 0 (i :: (cond ++ t :: (yes ++ e :: no))) (G.choose x a b)
  | whole {ts : List T} {a : A} (level : Phrase G 1 ts a) : Phrase G 0 ts a
  | chain {n : Nat} {ts : List T} {a : A} (positive : 0 < n) (below : n < G.top)
      (first : Phrase G (n + 1) ts a) (links : List (Link T A))
      (ops : ∀ l ∈ links, ∃ front, G.role l.op = .binary n l.build front)
      (operands : ∀ l ∈ links, Phrase G (n + 1) l.words l.value) :
      Phrase G n (ts ++ links.flatMap Link.tokens) (links.foldl (fun acc l => l.build acc l.value) a)
  | unary {n : Nat} {u : T} {f : A → A} {ts : List T} {a : A} (atTop : n = G.top)
      (isUnary : (G.role u).front? = some f) (operand : Phrase G n ts a) :
      Phrase G n (u :: ts) (f a)
  | atom {n : Nat} {t : T} {a : A} {sub : Option (A → A)} (atTop : n = G.top)
      (isAtom : G.role t = .atom a sub) : Phrase G n [t] a
  | group {n : Nat} {l r : T} {ts : List T} {a : A} (atTop : n = G.top) (left : G.role l = .lpar)
      (right : G.role r = .rpar) (inner : Phrase G 0 ts a) : Phrase G n (l :: (ts ++ [r])) a
  | subscript {n : Nat} {t l r : T} {a b : A} {f : A → A} {ts : List T} (atTop : n = G.top)
      (isAtom : G.role t = .atom a (some f)) (left : G.role l = .lbra) (right : G.role r = .rbra)
      (inner : Phrase G 0 ts b) : Phrase G n (t :: l :: (ts ++ [r])) (f b)

/-- What follows cannot continue a phrase of the level. -/
def Stops (G : ExprGrammar T A) (n : Nat) (rest : List T) : Prop :=
  ∀ t ∈ rest.head?, G.role t ≠ .lbra ∧ ∀ m f u, G.role t = .binary m f u → m < n

section

variable {G : ExprGrammar T A} {n : Nat} {ts rest : List T} {a : A}

/-! ## Operands at every level -/

/-- A phrase is one of every lower level. -/
theorem Phrase.lower {k : Nat} (phrase : Phrase G (n + k) ts a) (positive : 0 < n)
    (le : n + k ≤ G.top) : Phrase G n ts a := by
  induction k with
  | zero => exact phrase
  | succ k ih =>
      have alone := Phrase.chain (n := n + k) (by omega) le phrase [] (by simp) (by simp)
      rw [List.flatMap_nil, List.append_nil] at alone
      exact ih alone (by omega)

theorem Phrase.expression {m : Nat} (phrase : Phrase G m ts a) (positive : 0 < m)
    (le : m ≤ G.top) : Phrase G 0 ts a := by
  have split : 1 + (m - 1) = m := by omega
  rw [← split] at phrase
  exact .whole (phrase.lower Nat.one_pos (by omega))

/-- A binary operator between two operands of the highest level. -/
theorem Phrase.between {op : T} {build : A → A → A} {front : Option (A → A)} {ts' : List T} {a' : A}
    (left : Phrase G G.top ts a) (right : Phrase G G.top ts' a')
    (isBinary : G.role op = .binary n build front) (positive : 0 < n) (below : n < G.top) :
    Phrase G 0 (ts ++ op :: ts') (build a a') := by
  have split : n + 1 + (G.top - (n + 1)) = G.top := by omega
  rw [← split] at left right
  have operator := Phrase.chain positive below (left.lower (Nat.succ_pos n) (by omega))
    [⟨op, build, ts', a'⟩] (by simp [isBinary])
    (by simpa using right.lower (Nat.succ_pos n) (by omega))
  rw [List.flatMap_singleton] at operator
  exact operator.expression positive (by omega)

/-! ## What can follow a phrase -/

theorem stops_nil : Stops G n [] := by
  intro t member
  cases member

theorem Stops.mono {m : Nat} (stops : Stops G n rest) (le : n ≤ m) : Stops G m rest := by
  intro t member
  obtain ⟨noBracket, lower⟩ := stops t member
  exact ⟨noBracket, fun k f u op => Nat.lt_of_lt_of_le (lower k f u op) le⟩

/-- No level continues behind a token that is neither a bracket nor binary. -/
theorem stops_cons {t : T} {role : Role A} (is : G.role t = role) (noBracket : role ≠ .lbra)
    (notBinary : ∀ m f u, role ≠ .binary m f u) : Stops G n (t :: rest) := by
  intro t' member
  cases member
  rw [is]
  exact ⟨noBracket, fun m f u op => absurd op (notBinary m f u)⟩

theorem stops_thenT {t : T} (isThen : G.role t = .thenT) : Stops G n (t :: rest) :=
  stops_cons isThen (by intro same; cases same) (by intro m f u same; cases same)

theorem stops_elseT {t : T} (isElse : G.role t = .elseT) : Stops G n (t :: rest) :=
  stops_cons isElse (by intro same; cases same) (by intro m f u same; cases same)

theorem stops_rpar {t : T} (isPar : G.role t = .rpar) : Stops G n (t :: rest) :=
  stops_cons isPar (by intro same; cases same) (by intro m f u same; cases same)

theorem stops_rbra {t : T} (isBra : G.role t = .rbra) : Stops G n (t :: rest) :=
  stops_cons isBra (by intro same; cases same) (by intro m f u same; cases same)

/-- No operand continues behind an operator of a lower level. -/
theorem stops_links {links : List (Link T A)}
    (ops : ∀ l ∈ links, ∃ front, G.role l.op = .binary n l.build front) (stops : Stops G n rest) :
    Stops G (n + 1) (links.flatMap Link.tokens ++ rest) := by
  cases links with
  | nil => exact stops.mono (Nat.le_succ n)
  | cons l links =>
      intro t member
      cases member
      obtain ⟨front, op⟩ := ops l List.mem_cons_self
      rw [op]
      constructor
      · intro same
        cases same
      · intro m f u same
        cases same
        exact Nat.lt_succ_self n

/-- A subscript cannot follow a phrase in front of what stops it. -/
theorem Stops.not_lbra {t : T} (stops : Stops G n (t :: rest)) : G.role t ≠ .lbra :=
  (stops t rfl).1

/-! ## What a phrase starts with -/

theorem Phrase.ne_nil (phrase : Phrase G n ts a) : ts ≠ [] := by
  induction phrase with
  | choose => exact List.cons_ne_nil _ _
  | whole _ ih => exact ih
  | chain _ _ _ _ _ _ ih => exact fun empty => ih (List.append_eq_nil_iff.mp empty).1
  | unary => exact List.cons_ne_nil _ _
  | atom => exact List.cons_ne_nil _ _
  | group => exact List.cons_ne_nil _ _
  | subscript => exact List.cons_ne_nil _ _

/-- Tokens of no role are in no phrase. -/
theorem Phrase.not_other (phrase : Phrase G n ts a) : ∀ t ∈ ts, G.role t ≠ .other := by
  have apart {t u : T} {role : Role A} (is : G.role u = role) (role_ne : role ≠ .other)
      (same : t = u) : G.role t ≠ .other := by
    rwa [same, is]
  induction phrase with
  | choose isIf isThen isElse _ _ _ ihc ihy ihn =>
      intro t inside
      simp only [List.mem_cons, List.mem_append] at inside
      rcases inside with same | inside | same | inside | same | inside
      · exact apart isIf (by intro no; cases no) same
      · exact ihc t inside
      · exact apart isThen (by intro no; cases no) same
      · exact ihy t inside
      · exact apart isElse (by intro no; cases no) same
      · exact ihn t inside
  | whole _ ih => exact ih
  | chain _ _ _ links ops _ ih ihs =>
      intro t inside
      rcases List.mem_append.mp inside with first | later
      · exact ih t first
      · obtain ⟨link, listed, inside⟩ := List.mem_flatMap.mp later
        rcases List.mem_cons.mp inside with same | inside
        · obtain ⟨front, isBinary⟩ := ops link listed
          exact apart isBinary (by intro no; cases no) same
        · exact ihs link listed t inside
  | unary _ isUnary _ ih =>
      intro t inside
      rcases List.mem_cons.mp inside with rfl | inside
      · intro no
        rw [no] at isUnary
        cases isUnary
      · exact ih t inside
  | atom _ isAtom =>
      intro t inside
      exact apart isAtom (by intro no; cases no) (List.mem_singleton.mp inside)
  | group _ left right _ ih =>
      intro t inside
      simp only [List.mem_cons, List.mem_append, List.not_mem_nil, or_false] at inside
      rcases inside with same | inside | same
      · exact apart left (by intro no; cases no) same
      · exact ih t inside
      · exact apart right (by intro no; cases no) same
  | subscript _ isAtom left right _ ih =>
      intro t inside
      simp only [List.mem_cons, List.mem_append, List.not_mem_nil, or_false] at inside
      rcases inside with same | same | inside | same
      · exact apart isAtom (by intro no; cases no) same
      · exact apart left (by intro no; cases no) same
      · exact ih t inside
      · exact apart right (by intro no; cases no) same

/-- Only a whole expression starts with a conditional. -/
theorem Phrase.not_ifT (phrase : Phrase G n ts a) (level : n ≠ 0) {t : T} {rest : List T}
    (starts : ts = t :: rest) : G.role t ≠ .ifT := by
  induction phrase generalizing t rest with
  | choose => exact absurd rfl level
  | whole => exact absurd rfl level
  | @chain n ts a _ _ first _ _ _ ih =>
      cases ts with
      | nil => exact absurd rfl first.ne_nil
      | cons u us =>
          cases starts
          exact ih (Nat.succ_ne_zero n) rfl
  | unary _ isUnary =>
      cases starts
      intro isIf
      rw [isIf] at isUnary
      cases isUnary
  | atom _ isAtom =>
      cases starts
      intro isIf
      rw [isIf] at isAtom
      cases isAtom
  | group _ left =>
      cases starts
      intro isIf
      rw [isIf] at left
      cases left
  | subscript _ isAtom =>
      cases starts
      intro isIf
      rw [isIf] at isAtom
      cases isAtom

theorem Phrase.not_ifT_append (phrase : Phrase G n ts a) (level : n ≠ 0) {t : T} {more tail : List T}
    (starts : ts ++ more = t :: tail) : G.role t ≠ .ifT := by
  cases ts with
  | nil => exact absurd rfl phrase.ne_nil
  | cons u us =>
      cases starts
      exact phrase.not_ifT level rfl

/-! ## One reading -/

/-- Two chains behind equal operands are equal if their operands can be read in
one way only. -/
theorem links_unique {links links' : List (Link T A)} {rest' : List T}
    (ops : ∀ l ∈ links, ∃ front, G.role l.op = .binary n l.build front)
    (ops' : ∀ l ∈ links', ∃ front, G.role l.op = .binary n l.build front)
    (operands' : ∀ l ∈ links', Phrase G (n + 1) l.words l.value)
    (unique : ∀ l ∈ links, ∀ ts' a' rest rest', Phrase G (n + 1) ts' a' →
      l.words ++ rest = ts' ++ rest' → Stops G (n + 1) rest → Stops G (n + 1) rest' →
      l.words = ts' ∧ l.value = a')
    (same : links.flatMap Link.tokens ++ rest = links'.flatMap Link.tokens ++ rest')
    (stops : Stops G n rest) (stops' : Stops G n rest') : links = links' := by
  -- an operator of the level does not stop it
  have goesOn {l : Link T A} {more : List (Link T A)} {tail : List T}
      (op : ∃ front, G.role l.op = .binary n l.build front)
      (ends : Stops G n ((l :: more).flatMap Link.tokens ++ tail)) : False := by
    obtain ⟨front, role⟩ := op
    exact Nat.lt_irrefl n ((ends l.op rfl).2 n l.build front role)
  induction links generalizing links' with
  | nil =>
      cases links' with
      | nil => rfl
      | cons l' links' =>
          rw [List.flatMap_nil, List.nil_append] at same
          rw [same] at stops
          exact (goesOn (ops' l' List.mem_cons_self) stops).elim
  | cons l links ih =>
      cases links' with
      | nil =>
          rw [List.flatMap_nil, List.nil_append] at same
          rw [← same] at stops'
          exact (goesOn (ops l List.mem_cons_self) stops').elim
      | cons l' links' =>
          simp only [List.flatMap_cons, Link.tokens, List.cons_append, List.append_assoc,
            List.cons.injEq] at same
          obtain ⟨op, same⟩ := same
          have later : ∀ l ∈ links, ∃ front, G.role l.op = .binary n l.build front :=
            fun l inside => ops l (List.mem_cons_of_mem _ inside)
          have later' : ∀ l ∈ links', ∃ front, G.role l.op = .binary n l.build front :=
            fun l inside => ops' l (List.mem_cons_of_mem _ inside)
          obtain ⟨words, value⟩ := unique l List.mem_cons_self _ _ _ _
            (operands' l' List.mem_cons_self) same (stops_links later stops)
            (stops_links later' stops')
          have build : l.build = l'.build := by
            obtain ⟨front, role⟩ := ops l List.mem_cons_self
            obtain ⟨front', role'⟩ := ops' l' List.mem_cons_self
            rw [op, role'] at role
            injection role with _ builds
            exact builds.symm
          have links_eq : links = links' :=
            ih later later' (fun l inside => operands' l (List.mem_cons_of_mem _ inside))
              (fun l inside => unique l (List.mem_cons_of_mem _ inside))
              (by rw [words] at same; exact List.append_cancel_left same)
          rw [Link.ext op build words value, links_eq]

/-- Where two phrases of one level are in front of what stops them, they have the
same tokens and the same meaning. -/
theorem Phrase.unique {ts' rest' : List T} {a' : A} (first : Phrase G n ts a)
    (second : Phrase G n ts' a') (same : ts ++ rest = ts' ++ rest') (stops : Stops G n rest)
    (stops' : Stops G n rest') : ts = ts' ∧ a = a' := by
  induction first generalizing ts' a' rest rest' with
  | @choose i t e cond yes no x a b isIf isThen isElse _ _ _ ihc ihy ihn =>
      cases second with
      | choose isIf' isThen' isElse' first' second' third' =>
          simp only [List.cons_append, List.append_assoc, List.cons.injEq] at same
          obtain ⟨rfl, same⟩ := same
          obtain ⟨rfl, rfl⟩ := ihc first' same (stops_thenT isThen) (stops_thenT isThen')
          simp only [List.append_cancel_left_eq, List.cons.injEq] at same
          obtain ⟨rfl, same⟩ := same
          obtain ⟨rfl, rfl⟩ := ihy second' same (stops_elseT isElse) (stops_elseT isElse')
          simp only [List.append_cancel_left_eq, List.cons.injEq] at same
          obtain ⟨rfl, same⟩ := same
          obtain ⟨rfl, rfl⟩ := ihn third' same stops stops'
          exact ⟨rfl, rfl⟩
      | whole lower => exact absurd isIf (lower.not_ifT_append Nat.one_ne_zero same.symm)
      | chain positive => exact absurd positive (Nat.lt_irrefl 0)
      | unary atTop => exact absurd atTop (Nat.ne_of_lt G.positive)
      | atom atTop => exact absurd atTop (Nat.ne_of_lt G.positive)
      | group atTop => exact absurd atTop (Nat.ne_of_lt G.positive)
      | subscript atTop => exact absurd atTop (Nat.ne_of_lt G.positive)
  | whole lower ih =>
      cases second with
      | choose isIf' => exact absurd isIf' (lower.not_ifT_append Nat.one_ne_zero same)
      | whole lower' =>
          exact ih lower' same (stops.mono (Nat.zero_le 1)) (stops'.mono (Nat.zero_le 1))
      | chain positive => exact absurd positive (Nat.lt_irrefl 0)
      | unary atTop => exact absurd atTop (Nat.ne_of_lt G.positive)
      | atom atTop => exact absurd atTop (Nat.ne_of_lt G.positive)
      | group atTop => exact absurd atTop (Nat.ne_of_lt G.positive)
      | subscript atTop => exact absurd atTop (Nat.ne_of_lt G.positive)
  | @chain n ts a positive below _ links ops _ ih ihs =>
      cases second with
      | choose => exact absurd positive (Nat.lt_irrefl 0)
      | whole => exact absurd positive (Nat.lt_irrefl 0)
      | chain _ _ first' links' ops' operands' =>
          simp only [List.append_assoc] at same
          obtain ⟨rfl, rfl⟩ := ih first' same (stops_links ops stops) (stops_links ops' stops')
          have links_eq : links = links' :=
            links_unique ops ops' operands' (fun l inside ts' a' rest rest' second same stops stops' =>
              ihs l inside second same stops stops') (List.append_cancel_left same) stops stops'
          rw [links_eq]
          exact ⟨rfl, rfl⟩
      | unary atTop => exact absurd atTop (Nat.ne_of_lt below)
      | atom atTop => exact absurd atTop (Nat.ne_of_lt below)
      | group atTop => exact absurd atTop (Nat.ne_of_lt below)
      | subscript atTop => exact absurd atTop (Nat.ne_of_lt below)
  | @unary n u f ts a atTop isUnary _ ih =>
      cases second with
      | choose => exact absurd atTop (Nat.ne_of_lt G.positive)
      | whole => exact absurd atTop (Nat.ne_of_lt G.positive)
      | chain _ below => exact absurd atTop (Nat.ne_of_lt below)
      | unary _ isUnary' operand' =>
          simp only [List.cons_append, List.cons.injEq] at same
          obtain ⟨rfl, same⟩ := same
          obtain ⟨rfl, rfl⟩ := ih operand' same stops stops'
          rw [isUnary] at isUnary'
          cases isUnary'
          exact ⟨rfl, rfl⟩
      | atom _ isAtom' =>
          obtain ⟨rfl, _⟩ := List.cons.inj same
          rw [isAtom'] at isUnary
          cases isUnary
      | group _ left' =>
          obtain ⟨rfl, _⟩ := List.cons.inj same
          rw [left'] at isUnary
          cases isUnary
      | subscript _ isAtom' =>
          obtain ⟨rfl, _⟩ := List.cons.inj same
          rw [isAtom'] at isUnary
          cases isUnary
  | atom atTop isAtom =>
      cases second with
      | choose => exact absurd atTop (Nat.ne_of_lt G.positive)
      | whole => exact absurd atTop (Nat.ne_of_lt G.positive)
      | chain _ below => exact absurd atTop (Nat.ne_of_lt below)
      | unary _ isUnary' =>
          obtain ⟨rfl, _⟩ := List.cons.inj same
          rw [isAtom] at isUnary'
          cases isUnary'
      | atom _ isAtom' =>
          obtain ⟨rfl, _⟩ := List.cons.inj same
          rw [isAtom] at isAtom'
          cases isAtom'
          exact ⟨rfl, rfl⟩
      | group _ left' =>
          obtain ⟨rfl, _⟩ := List.cons.inj same
          rw [isAtom] at left'
          cases left'
      | subscript _ _ left' =>
          obtain ⟨_, behind⟩ := List.cons.inj same
          rw [show rest = _ from behind] at stops
          exact absurd left' stops.not_lbra
  | group atTop left right _ ih =>
      cases second with
      | choose => exact absurd atTop (Nat.ne_of_lt G.positive)
      | whole => exact absurd atTop (Nat.ne_of_lt G.positive)
      | chain _ below => exact absurd atTop (Nat.ne_of_lt below)
      | unary _ isUnary' =>
          obtain ⟨rfl, _⟩ := List.cons.inj same
          rw [left] at isUnary'
          cases isUnary'
      | atom _ isAtom' =>
          obtain ⟨rfl, _⟩ := List.cons.inj same
          rw [left] at isAtom'
          cases isAtom'
      | group _ _ right' inner' =>
          simp only [List.cons_append, List.append_assoc, List.cons.injEq] at same
          obtain ⟨rfl, same⟩ := same
          obtain ⟨rfl, rfl⟩ := ih inner' same (stops_rpar right) (stops_rpar right')
          simp only [List.append_cancel_left_eq, List.cons.injEq] at same
          obtain ⟨rfl, _⟩ := same
          exact ⟨rfl, rfl⟩
      | subscript _ isAtom' =>
          obtain ⟨rfl, _⟩ := List.cons.inj same
          rw [left] at isAtom'
          cases isAtom'
  | subscript atTop isAtom left right _ ih =>
      cases second with
      | choose => exact absurd atTop (Nat.ne_of_lt G.positive)
      | whole => exact absurd atTop (Nat.ne_of_lt G.positive)
      | chain _ below => exact absurd atTop (Nat.ne_of_lt below)
      | unary _ isUnary' =>
          obtain ⟨rfl, _⟩ := List.cons.inj same
          rw [isAtom] at isUnary'
          cases isUnary'
      | atom _ isAtom' =>
          obtain ⟨_, behind⟩ := List.cons.inj same
          rw [← show _ = rest' from behind] at stops'
          exact absurd left stops'.not_lbra
      | group _ left' =>
          obtain ⟨rfl, _⟩ := List.cons.inj same
          rw [isAtom] at left'
          cases left'
      | subscript _ isAtom' left' right' inner' =>
          simp only [List.cons_append, List.append_assoc, List.cons.injEq] at same
          obtain ⟨rfl, rfl, same⟩ := same
          rw [isAtom] at isAtom'
          cases isAtom'
          obtain ⟨rfl, rfl⟩ := ih inner' same (stops_rbra right) (stops_rbra right')
          simp only [List.append_cancel_left_eq, List.cons.injEq] at same
          obtain ⟨rfl, _⟩ := same
          exact ⟨rfl, rfl⟩

/-- A sequence of tokens has at most one reading. -/
theorem Phrase.unambiguous {a' : A} (first : Phrase G n ts a) (second : Phrase G n ts a') :
    a = a' := by
  have same : ts ++ [] = ts ++ [] := rfl
  exact (first.unique second same stops_nil stops_nil).2

end

end Utot.Library
