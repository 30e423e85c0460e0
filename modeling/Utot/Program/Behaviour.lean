import Utot.Format.ReadBack
import Utot.Network.Preservation
import Utot.Program.Levels

/-!
# What the program leaves behind

A run of the program that succeeds leaves a file that TChecker reads as a network,
and the network is bisimilar to the model the parser library has read.
-/

namespace Utot

open Utap Uppaal Library Tchecker

/-! ## The text of a file -/

section

variable {d : Dumps} {env : Env} {st : TrState}

theorem fileText_cons (o : Output) (trace : List Output) : fileText d (o :: trace) =
    ((physicalLine d o).map fun line => line ++ ['\n']).getD [] ++ fileText d trace := by
  unfold fileText
  rw [List.filterMap_cons]
  cases physicalLine d o <;> rfl

/-- Messages are in no file. -/
theorem fileText_written (trace : List Output) :
    fileText d (trace.filter fun o => !isMessage o) = fileText d trace := by
  induction trace with
  | nil => rfl
  | cons o trace ih =>
      cases o with
      | message level args => exact ih
      | _ => rw [List.filter_cons_of_pos rfl, fileText_cons, fileText_cons, ih]

theorem toList_textOf {trace : List Output} (noMessage : ∀ o ∈ trace, isMessage o = false) :
    (textOf (outputText d) trace).toList = fileText d trace := by
  induction trace with
  | nil => rfl
  | cons o trace ih =>
      obtain ⟨line, written, text⟩ := @toList_outputText d o (noMessage o List.mem_cons_self)
      rw [toList_textOf_cons, text, ih fun o' inside => noMessage o' (List.mem_cons_of_mem _ inside),
        fileText_cons, written]
      rfl

theorem legible_msg (legible : Legible d st) (threshold level : Nat) (args : List Arg) :
    Legible d (exec (msg threshold level args) st).2 := by
  unfold msg
  split
  · exact legible.write trivial
  · exact legible

theorem lines_msg (threshold level : Nat) (args : List Arg) :
    (exec (msg threshold level args) st).2.lines = st.lines := by
  unfold msg
  split
  · exact st.lines_message level args
  · rfl

theorem events_msg (threshold level : Nat) (args : List Arg) :
    (exec (msg threshold level args) st).2.events = st.events := by
  unfold msg
  split
  · rfl
  · rfl

end

/-! ## The model in the file -/

section

variable {d : Dumps} {parser : Parser} {stack : Nat} {usage version : Output}
  {answers : List GetoptAnswer} {operands : List String} {m : Machine} {o : Options} {parsed : Parsed}

/-- What goes to the file is read back as the lines of the translation. -/
theorem readModel_of_finished (printable : Printable (environment stack o parsed) parsed.system d)
    (source : 0 < o.verboseLevel → '\n' ∉ (o.inputFilename.getD "stdin").toList)
    {st : TrState} (run : exec (translateSystem (environment stack o parsed) (sGetSystemId o) parsed.system)
      (translationStart (environment stack o parsed)) = (.ok (), st)) :
    readModel (fileText d (header o ++ translationTrace stack o parsed)) = some st.lines := by
  have legible := printable.legible_from (unseparated_systemId o)
    (legible_msg (legible_initial d) _ _ _) run
  have last : Legible d (exec (translateModel (environment stack o parsed) (sGetSystemId o) parsed.system)
      .initial).2 ∧ (exec (translateModel (environment stack o parsed) (sGetSystemId o) parsed.system)
      .initial).2.lines = st.lines := by
    rcases @translateModel_state (environment stack o parsed) (sGetSystemId o) parsed.system with same | same
    all_goals rw [same, run]
    · exact ⟨legible, rfl⟩
    · exact ⟨legible_msg legible _ _ _, lines_msg _ _ _⟩
  rw [readModel_fileText, linesOf_header]
  · exact congrArg some last.2
  · intro out inside
    rcases List.mem_append.mp inside with comment | written
    · exact writable_header d source out comment
    · exact last.1.written out written

variable {V T : Type} {A : Arithmetic V} [LE T] (advance : T → V → V) (order : Schedule)

end

/-! ## The relay in a file -/

/-- The expressions of the relay: nothing is subscripted. -/
inductive RelayExpr : Expr → Prop where
  | variable' {s : Symbol} {t : Ty} (listed : s = 2 ∨ s = 5) : RelayExpr (.identifier s t)
  | constant {v : Int} {t : Ty} : RelayExpr (.constant v t)
  | binary {k : BinaryKind} {l r : Expr} {t : Ty} (other : k ≠ .array) (left : RelayExpr l)
      (right : RelayExpr r) : RelayExpr (.binary k l r t)

theorem translated_relay {ctx : ContextPrefix} {q : Instance} {e : Expr}
    (translated : Translated relayEnv relayModel ctx q e) :
    (∀ s, mapped? (some q) s = none) ∧ RelayExpr e := by
  have bound {k : BinaryKind} {bound : Int} (other : k ≠ .array) : RelayExpr (relayBound k bound) :=
    .binary other (.variable' (.inr rfl)) .constant
  cases translated with
  | invariant listed inst member given =>
      obtain ⟨o, lives, _, rfl⟩ := lives_of_instance tractable_relay.ranges listed inst
      rcases lives_relay lives with ⟨rfl, rfl⟩ | ⟨rfl, rfl⟩ <;>
        rcases List.mem_pair.mp member with rfl | rfl <;> cases given
      exact ⟨mapped_relay listed, bound (by decide)⟩
  | guard visit =>
      obtain ⟨o, p, lives, _, member, chooses⟩ := (visit_iff tractable_relay.ranges).mp visit
      rcases choice_relay lives member chooses with ⟨rfl, rfl, rfl, rfl⟩ | ⟨rfl, rfl, rfl, rfl⟩
      · exact ⟨mapped_relay lives.listed, bound (by decide)⟩
      · exact ⟨mapped_relay lives.listed, .constant⟩
  | update visit =>
      obtain ⟨o, p, lives, _, member, chooses⟩ := (visit_iff tractable_relay.ranges).mp visit
      rcases choice_relay lives member chooses with ⟨rfl, rfl, rfl, rfl⟩ | ⟨rfl, rfl, rfl, rfl⟩
      · exact ⟨mapped_relay lives.listed, .binary (by decide) (.variable' (.inl rfl)) .constant⟩
      · exact ⟨mapped_relay lives.listed, .constant⟩

theorem RelayExpr.printedIn {q : Instance} (unbound : ∀ s, mapped? (some q) s = none) {e r : Expr}
    (flat : RelayExpr e) (inside : PrintedIn relayEnv (some q) r e) : RelayExpr r := by
  induction inside with
  | self => exact flat
  | left _ ih =>
      cases flat with
      | binary _ left _ => exact ih left
  | right _ _ ih =>
      cases flat with
      | binary _ _ right => exact ih right
  | index _ _ ih =>
      cases flat with
      | binary _ _ right => exact ih right
  | argument bound =>
      rw [unbound] at bound
      cases bound
  | _ => cases flat

theorem RelayExpr.indices {q : Instance} (unbound : ∀ s, mapped? (some q) s = none) {e : Expr}
    (flat : RelayExpr e) {c : Symbol} {indices : List Int} (name : VariableName relayEnv (some q) e c indices) :
    indices = [] := by
  cases name with
  | declared => rfl
  | parameter bound =>
      rw [unbound] at bound
      cases bound
  | cell =>
      cases flat with
      | binary other => exact absurd rfl other
  | sync => cases flat

theorem declaredBy_relay {p : Option Instance} {s : Symbol} (declared : DeclaredBy relayEnv relayModel p s) :
    s = 1 ∨ s = 2 ∨ s = 5 := by
  have inScope {p : Instance} (listed : p ∈ relayModel.processes) (inside : s ∈ scopeOf relayModel p) :
      s = 1 ∨ s = 2 ∨ s = 5 := by
    rcases scope_relay listed inside with same | same | ⟨same, _⟩ <;> simp [same]
  cases declared with
  | inGlobals listed => exact inScope List.mem_cons_self (mem_scopeOf.mpr (.inl listed))
  | inTemplate listed inst declared =>
      obtain ⟨o, _, _, rfl⟩ := lives_of_instance tractable_relay.ranges listed inst
      exact inScope listed (mem_scopeOf.mpr (.inr declared))

theorem channel_relay {ctx : ContextPrefix} {q : Instance} {e : Edge} {kind : SyncKind} {channel : Expr}
    (visit : Visit relayEnv relayModel.processes ctx q e) (sync : e.sync = some (.sync kind channel)) :
    (∀ s, mapped? (some q) s = none) ∧ channel = .identifier 1 (.prim .channel) := by
  obtain ⟨o, p, lives, _, member, chooses⟩ := (visit_iff tractable_relay.ranges).mp visit
  rcases choice_relay lives member chooses with ⟨rfl, rfl, rfl, rfl⟩ | ⟨rfl, rfl, rfl, rfl⟩
  · cases sync
    exact ⟨mapped_relay lives.listed, rfl⟩
  · cases sync
    exact ⟨mapped_relay lives.listed, rfl⟩

/-- The symbols of the relay behind `t(0)`. -/
def relaySymbols : List Symbol := [1, 2, 3, 4, 5, 6, 7, 8, 9]

theorem declared_mem_relay {p : Option Instance} {s : Symbol} (declared : DeclaredBy relayEnv relayModel p s) :
    s ∈ relaySymbols := by
  rcases declaredBy_relay declared with rfl | rfl | rfl <;> decide

theorem shown_relay {s : Symbol} (shown : Shown relayEnv relayModel s) : s ∈ relaySymbols := by
  cases shown with
  | process listed => rcases List.mem_pair.mp listed with rfl | rfl <;> decide
  | parameter listed isOpen => rcases List.mem_pair.mp listed with rfl | rfl <;> cases isOpen
  | location listed member =>
      rcases List.mem_pair.mp listed with rfl | rfl <;> rcases List.mem_pair.mp member with rfl | rfl <;> decide
  | ending listed member ends =>
      rcases List.mem_pair.mp listed with rfl | rfl <;> cases List.mem_singleton.mp member <;>
        rcases ends with same | same <;> cases same <;> decide
  | declared declared => exact declared_mem_relay declared
  | reference translated inside =>
      obtain ⟨unbound, flat⟩ := translated_relay translated
      cases flat.printedIn unbound inside with
      | variable' listed => rcases listed with rfl | rfl <;> decide
  | channel visit sync resolves =>
      obtain ⟨unbound, rfl⟩ := channel_relay visit sync
      cases resolves with
      | declared => decide
      | parameter bound => cases (unbound 1).symm.trans bound

theorem printable_relay : Printable relayEnv relayModel noDumps := by
  have lexed : (relaySymbols.all fun s => isIdentifier (relayEnv.getName s).toList) = true := rfl
  have foreign : (relaySymbols.all fun s => foreignChars.all fun c =>
      !(relayEnv.getName s).toList.elem c) = true := rfl
  have names : ∀ s ∈ relaySymbols, isIdentifier (relayEnv.getName s).toList = true :=
    List.all_eq_true.mp lexed
  have plain : ∀ s ∈ relaySymbols, ∀ c ∈ foreignChars, c ∉ (relayEnv.getName s).toList := by
    intro s listed c special
    simpa using List.all_eq_true.mp (List.all_eq_true.mp foreign s listed) c special
  constructor
  · constructor
    · exact fun s shown => plain s (shown_relay shown)
    · intro p listed values count _ i inside
      rcases List.mem_pair.mp listed with rfl | rfl <;> rw [List.length_eq_zero_iff.mp count] at inside <;>
        cases inside
    · intro p s declared _ S type indices _ i inside
      rcases declaredBy_relay declared with rfl | rfl | rfl <;> cases indices <;> cases inside
    · intro ctx q e r c indices translated inside name i listed
      obtain ⟨unbound, flat⟩ := translated_relay translated
      rw [(flat.printedIn unbound inside).indices unbound name] at listed
      cases listed
    · intro ctx q e kind channel c indices visit sync name i listed
      obtain ⟨unbound, rfl⟩ := channel_relay visit sync
      cases name with
      | declared => cases listed
      | parameter bound =>
          rw [unbound] at bound
          cases bound
  · intro s mentioned
    cases mentioned with
    | shown shown => exact names s (shown_relay shown)
    | declared declared => exact names s (declared_mem_relay declared)
    | select listed member selected =>
        rcases List.mem_pair.mp listed with rfl | rfl <;> cases List.mem_singleton.mp member <;> cases selected
  · have empty : '\n' ∉ "".toList := by decide
    exact ⟨fun _ => empty, fun _ => empty, fun _ => empty⟩

/-- The file of the relay is read back. -/
theorem lines_read_back_relay :
    ∃ st', exec (translateSystem relayEnv (sGetSystemId quietOptions) relayModel) .initial = (.ok (), st') ∧
      readModel (fileText noDumps (header quietOptions ++ st'.trace)) = some st'.lines ∧
      (∀ l ∈ st'.lines, Tchecker.Readable l ∧ readLine (render l).toList = some l) ∧
      ∀ ctx q e r c indices text, Translated relayEnv relayModel ctx q e → PrintedIn relayEnv (some q) r e →
        VariableName relayEnv (some q) r c indices →
        translateExpression relayEnv (some q) r ctx = .ok text → IsToken text := by
  have run : exec (translateSystem relayEnv (sGetSystemId quietOptions) relayModel) .initial =
      (.ok (), _) := rfl
  have printable := printable_relay
  exact ⟨_, run, lines_read_back printable.lexed printable.oneLine (by rintro ⟨⟩) printable.toPlainNames run⟩

def relayText : String :=
  "chan c; int[0,5] n; process P() \x7b clock x; state A \x7b x <= 2 \x7d, B; init A; trans A -> B \x7b " ++
  "guard x >= 1; sync c!; assign n = 1; \x7d; \x7d process Q() \x7b state C, D; init C; trans C -> D \x7b " ++
  "sync c?; \x7d; \x7d system P, Q;"

/-- What the parser library makes of the text. -/
def relayParsed : Parsed := ⟨relayEnv.symbols, relayModel, [], []⟩

theorem accepted_relay : Accepted (outputText noDumps) (fun _ _ _ => relayParsed) []
    ["model.xta", "model.tck"] (modelMachine relayText) commandOptions relayParsed := by
  constructor
  · rfl
  · exact ⟨rfl, rfl⟩
  · rfl

/-- The run of the program on the relay. -/
def relayMain : Exit × Machine :=
  main (outputText noDumps) (fun _ _ _ => relayParsed) 20 .blank .blank [] ["model.xta", "model.tck"]
    (modelMachine relayText)

theorem success_relay : relayMain.1 = .success := by
  have opened : opens (modelMachine relayText) commandOptions "model.tck" = true := rfl
  obtain ⟨exit, after, ended, reports, _⟩ :=
    @main_opened _ _ 20 _ _ _ _ _ .blank .blank accepted_relay _ rfl opened
  rw [show relayMain = (exit, after) from ended]
  exact reports.success.mpr ⟨⟨_, rfl⟩, rfl⟩

end Utot
