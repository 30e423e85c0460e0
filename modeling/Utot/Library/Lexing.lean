import Mathlib.Data.List.Basic

/-!
# Maximal munch

A text is cut into lexemes by one rule: a character joins the pending lexeme if
it can, and starts a new one otherwise.  What a text is cut into does not depend
on what follows, as long as the next character cannot join its last lexeme.
-/

namespace Utot.Library

/-- Which characters join a pending lexeme, and which lexemes are dropped. -/
structure Lexer (C : Type) where
  joins : List C → C → Bool
  blank : List C → Bool
  joins_nil : ∀ c, joins [] c = true
  blank_nil : blank [] = true

namespace Lexer

variable {C : Type} (L : Lexer C)

/-- A finished lexeme, unless it is blank. -/
def flush (pending : List C) : List (List C) := if L.blank pending then [] else [pending]

/-- The lexemes of a text behind a pending one, and the one that is pending then. -/
def scan (pending : List C) : List C → List (List C) × List C
  | [] => ([], pending)
  | c :: rest =>
      if L.joins pending c then scan (pending ++ [c]) rest
      else (L.flush pending ++ (scan [c] rest).1, (scan [c] rest).2)

/-- The lexemes of a whole text. -/
def lex (text : List C) : List (List C) :=
  (L.scan [] text).1 ++ L.flush (L.scan [] text).2

theorem scan_append (pending text more : List C) :
    L.scan pending (text ++ more) =
      ((L.scan pending text).1 ++ (L.scan (L.scan pending text).2 more).1,
        (L.scan (L.scan pending text).2 more).2) := by
  induction text generalizing pending with
  | nil => rfl
  | cons c rest ih =>
      rw [List.cons_append, scan, scan]
      split
      · exact ih _
      · rw [ih [c], List.append_assoc]

theorem scan_nil_cons (c : C) (rest : List C) : L.scan [] (c :: rest) = L.scan [c] rest := by
  rw [scan, if_pos (L.joins_nil c)]
  rfl

/-- The text is cut into the lexemes whenever one of the characters `ends` follows. -/
structure Scans (ends : C → Prop) (text : List C) (lexemes : List (List C)) : Prop where
  cut : L.lex text = lexemes
  closed : ∀ c, ends c → L.joins (L.scan [] text).2 c = false

variable {L} {ends ends' : C → Prop} {text text' : List C} {lexemes lexemes' : List (List C)}

theorem Scans.append {c : C} {rest : List C} (first : L.Scans ends text lexemes)
    (second : L.Scans ends' text' lexemes') (starts : text' = c :: rest) (follows : ends c) :
    L.Scans ends' (text ++ text') (lexemes ++ lexemes') := by
  subst starts
  have behind : L.scan (L.scan [] text).2 (c :: rest) =
      (L.flush (L.scan [] text).2 ++ (L.scan [] (c :: rest)).1, (L.scan [] (c :: rest)).2) := by
    rw [scan, first.closed c follows, scan_nil_cons]
    rfl
  constructor
  · rw [← first.cut, ← second.cut, lex, lex, lex, scan_append, behind]
    simp only [List.append_assoc]
  · rw [scan_append, behind]
    exact second.closed

/-- Behind a text that nothing can join, any text can follow. -/
theorem Scans.append_closed (first : L.Scans (fun _ => True) text lexemes)
    (second : L.Scans ends' text' lexemes') :
    L.Scans ends' (text ++ text') (lexemes ++ lexemes') := by
  cases text' with
  | nil =>
      have none : lexemes' = [] := by
        rw [← second.cut, lex, scan, flush, if_pos L.blank_nil]
        rfl
      rw [none, List.append_nil, List.append_nil]
      exact ⟨first.cut, fun c _ => first.closed c trivial⟩
  | cons c rest => exact first.append second rfl trivial

theorem Scans.weaken (scans : L.Scans ends text lexemes) (fewer : ∀ c, ends' c → ends c) :
    L.Scans ends' text lexemes :=
  ⟨scans.cut, fun c is => scans.closed c (fewer c is)⟩

/-- A lexeme of its own, if each character joins those in front of it. -/
theorem scan_run {pending : List C}
    (joined : ∀ front c back, text = front ++ c :: back → L.joins (pending ++ front) c = true) :
    L.scan pending text = ([], pending ++ text) := by
  induction text generalizing pending with
  | nil => rw [scan, List.append_nil]
  | cons c rest ih =>
      have now : L.joins pending c = true := by
        have first := joined [] c rest rfl
        rwa [List.append_nil] at first
      rw [scan, if_pos now, ih, List.append_assoc, List.singleton_append]
      intro front d back split
      have next := joined (c :: front) d back (by rw [split, List.cons_append])
      rwa [← List.singleton_append, ← List.append_assoc] at next

end Lexer

end Utot.Library
