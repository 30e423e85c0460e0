import Utot.Format.Lines
import Utot.Names.Injective
import Utot.Program.CommandLine
import Utot.Run.Vectors

/-!
# Files that are read back

A model whose printed names are identifiers of TChecker is translated into a
file that TChecker reads as the lines the translator meant.
-/

namespace Utot

open Utap Library Tchecker

/-! ## Synchronisation vectors -/

/-- All that is written can be read back, and the tables hold tokens. -/
structure Legible (d : Dumps) (st : TrState) : Prop where
  written : ∀ o ∈ st.trace, Writable d o
  tables : ∀ {kind label process}, process ∈ (tableOf kind st.events).procs label →
    IsToken label ∧ IsToken process

section

variable {d : Dumps} {st st' : TrState}

theorem legible_initial (d : Dumps) : Legible d .initial := by
  constructor
  · intro o inside
    cases inside
  · intro kind label process inside
    have empty : (tableOf kind TrState.initial.events).procs label = ∅ := by
      cases kind <;> exact ProcTable.procs_empty label
    rw [empty] at inside
    exact absurd inside Std.TreeSet.not_mem_emptyc

theorem Legible.write (legible : Legible d st) {o : Output} (writable : Writable d o) :
    Legible d (st.write o) := by
  refine ⟨fun o' inside => ?_, legible.tables⟩
  rcases List.mem_append.mp inside with before | now
  · exact legible.written o' before
  · rw [List.mem_singleton.mp now]
    exact writable

theorem Legible.step (legible : Legible d st) (sound : Sound d st st') : Legible d st' := by
  constructor
  · intro o inside
    rcases sound.outputs o inside with before | writable
    · exact legible.written o before
    · exact writable
  · intro kind label process inside
    rcases sound.tables inside with before | tokens
    · exact legible.tables before
    · exact tokens

theorem not_mem_text {text : String} (oneLine : '\n' ∉ text.toList) :
    '\n' ∉ argText d (.text text) := oneLine

/-- Vectors of tokens, and the lines of the process `Stuck`, can be read back. -/
theorem legible_generating (d : Dumps) :
    Generating (Legible d) fun process event => IsToken process ∧ IsToken event where
  tables legible kind _ _ inside := by
    obtain ⟨label, process⟩ := legible.tables inside
    exact ⟨process, isToken_eventOf label kind⟩
  sync legible made := by
    refine legible.write (o := .line (.sync _)) fun x inside => ?_
    rcases made x inside with tokens | ⟨_, process, event⟩
    · exact tokens
    · rw [process, event]
      exact ⟨by decide, by decide⟩
  stuck legible _ := by
    have comment := legible.write (o := .comment [.text
      "dummy process used to block emitted/received events that aren't synchronized."])
      (List.forall_mem_singleton.mpr (not_mem_text (by decide)))
    have process := comment.write (o := .line (.process stuckProcess))
      (show IsToken stuckProcess by decide)
    have event := process.write (o := .line (.event noSyncEvent)) (show IsToken noSyncEvent by decide)
    have sink : Writable d (.line (.location stuckProcess "sink" [("initial", "")])) := by
      refine ⟨by decide, by decide, List.forall_mem_singleton.mpr ⟨?_, ?_⟩⟩
      · exact unseparated_of_all (by decide)
      · exact unseparated_of_all (by decide)
    have location := event.write sink
    exact ⟨location.written, location.tables⟩
  erase legible s := ⟨legible.written, fun inside => legible.tables (mem_tableOf_erase inside)⟩

end

/-! ## The system -/

theorem unseparated_systemId (o : Options) : Unseparated (sGetSystemId o).toList := by
  have system : Unseparated "System".toList := unseparated_of_all (by decide)
  have chars : ∀ c x, x ∈ systemIdChars c → x ∉ separators := by
    intro c x inside separator
    unfold systemIdChars at inside
    split at inside
    · rename_i plain
      rw [List.mem_singleton.mp inside] at separator
      have all : separators.all (fun c => !(c.isAlphanum || c == '_' || c == '.')) = true := by decide
      have none := List.all_eq_true.mp all _ separator
      rw [plain] at none
      cases none
    · rw [List.eq_of_mem_replicate inside] at separator
      exact absurd separator (by decide)
  unfold sGetSystemId
  split
  · exact system
  · split
    · exact system
    · rw [String.toList_ofList]
      intro x inside
      obtain ⟨c, _, member⟩ := List.mem_flatMap.mp inside
      exact chars c x member

theorem writable_header (d : Dumps) {o : Options}
    (oneLine : 0 < o.verboseLevel → '\n' ∉ (o.inputFilename.getD "stdin").toList) :
    ∀ out ∈ header o, Writable d out := by
  have empty : Writable d (.comment []) := fun _ inside => by cases inside
  have generated : Writable d (.comment [.text "This file has been generated automatically with ",
      .text "uppaal-to-tchecker"]) :=
    List.forall_mem_cons.mpr ⟨show '\n' ∉ "This file has been generated automatically with ".toList
      by decide, List.forall_mem_singleton.mpr (show '\n' ∉ "uppaal-to-tchecker".toList by decide)⟩
  intro out inside
  unfold header at inside
  rcases List.mem_append.mp inside with front | last
  · rcases List.mem_append.mp front with first | source
    · rcases List.mem_cons.mp first with rfl | second
      · exact empty
      · rw [List.mem_singleton.mp second]
        exact generated
    · split at source
      · rename_i verbose
        rw [List.mem_singleton.mp source]
        exact List.forall_mem_cons.mpr ⟨show '\n' ∉ "from file: ".toList by decide,
          List.forall_mem_singleton.mpr (oneLine verbose)⟩
      · cases source
  · rw [List.mem_singleton.mp last]
    exact empty

theorem linesOf_header (o : Options) (trace : List Output) :
    linesOf (header o ++ trace) = linesOf trace := by
  have comments : linesOf (header o) = [] := by
    unfold header
    split <;> rfl
  rw [linesOf, List.filterMap_append]
  exact congrArg (· ++ linesOf trace) comments

section

variable {env : Env} {tas : TimedAutomataSystem} {d : Dumps}

/-- Whatever a translation adds can be read back. -/
theorem Printable.legible_from (printable : Printable env tas d) {sysname : String}
    (system : Unseparated sysname.toList) {st st' : TrState} (legible : Legible d st)
    (run : exec (translateSystem env sysname tas) st = (.ok (), st')) : Legible d st' := by
  have processes : Spec (Legible d) (translateProcesses env sysname tas) (fun _ => Legible d)
      (Legible d) :=
    (keepsSound_processes printable system).spec fun _ _ sound legible => legible.step sound
  have table : Spec (Legible d) (sDisplayTableOfEvents env) (fun _ => Legible d) (Legible d) := by
    have messages : Keeps (soundFrame d) (sDisplayTableOfEvents env) :=
      keeps_displayTable (fun st level args => sound_write st (o := .message level args) trivial) env
    exact messages.spec fun _ _ sound legible => legible.step sound
  have vectors : Spec (Legible d) sGenerateSyncVectors (fun _ => Legible d) fun _ => True :=
    (sGenerateSyncVectors_kept (legible_generating d)).weaken
      (fun _ legible => ⟨legible.written, legible.tables⟩) (fun _ _ post => post) fun _ _ => trivial
  have whole : Spec (Legible d) (translateSystem env sysname tas) (fun _ => Legible d)
      fun _ => True :=
    Spec.bind (processes.weaken (fun _ pre => pre) (fun _ _ post => post) fun _ _ => trivial)
      fun _ => Spec.bind (table.weaken (fun _ pre => pre) (fun _ _ post => post) fun _ _ => trivial)
        fun _ => vectors
  exact whole.returned legible run

/-- Whatever a translation writes can be read back. -/
theorem Printable.legible (printable : Printable env tas d) {sysname : String}
    (system : Unseparated sysname.toList) {st' : TrState}
    (run : exec (translateSystem env sysname tas) .initial = (.ok (), st')) : Legible d st' :=
  printable.legible_from system (legible_initial d) run

/-! ## Names in attributes -/

theorem PrintedIn.trans {p : Option Instance} {r x e : Expr} (inner : PrintedIn env p r x)
    (outer : PrintedIn env p x e) : PrintedIn env p r e := by
  induction outer with
  | self => exact inner
  | unary _ ih => exact .unary ih
  | left _ ih => exact .left ih
  | right other _ ih => exact .right other ih
  | index whole _ ih => exact .index whole ih
  | cond _ ih => exact .cond ih
  | yes _ ih => exact .yes ih
  | no _ ih => exact .no ih
  | argument bound _ ih => exact .argument bound ih
  | channel _ ih => exact .channel ih

/-- The symbol behind a reference is printed where the reference is. -/
theorem NameOf.printedIn {p : Option Instance} {split : Expr → Prop} {r : Expr} {c : Symbol}
    {indices : List Int} (name : NameOf env p split r c indices) :
    mapped? p c = none ∧ ∃ t, PrintedIn env p (.identifier c t) r := by
  induction name with
  | declared unbound => exact ⟨unbound, _, .self⟩
  | parameter bound _ ih =>
      obtain ⟨unbound, t, inside⟩ := ih
      exact ⟨unbound, t, .argument bound inside⟩
  | cell _ _ _ ih =>
      obtain ⟨unbound, t, inside⟩ := ih
      exact ⟨unbound, t, .left inside⟩
  | sync _ _ ih =>
      obtain ⟨unbound, t, inside⟩ := ih
      exact ⟨unbound, t, .channel inside⟩

theorem Printable.plainPrefix (printable : Printable env tas d) {ctx : ContextPrefix} {q : Instance}
    {e : Expr} (translated : Translated env tas ctx q e) : PlainPrefix ctx := by
  obtain ⟨p, listed, r, inst⟩ : ∃ p ∈ tas.processes, ∃ r, InstanceOf env p ctx r := by
    cases translated with
    | invariant listed inst member given => exact ⟨_, listed, _, inst⟩
    | guard visit =>
        obtain ⟨p, listed, r, inst, _⟩ := visit
        exact ⟨p, listed, r, inst⟩
    | update visit =>
        obtain ⟨p, listed, r, inst, _⟩ := visit
        exact ⟨p, listed, r, inst⟩
  obtain ⟨values, count, rfl, rfl⟩ := instanceOf_values inst
  exact printable.prefixes listed count inst

/-- The names of variables, clocks and cells that are printed in attributes are tokens. -/
theorem Printable.variableName (printable : Printable env tas d) {ctx : ContextPrefix} {q : Instance}
    {e r : Expr} {c : Symbol} {indices : List Int} (translated : Translated env tas ctx q e)
    (inside : PrintedIn env (some q) r e) (name : VariableName env (some q) r c indices)
    {text : String} (printed : translateExpression env (some q) r ctx = .ok text) :
    IsToken text := by
  obtain ⟨unbound, t, symbol⟩ := name.printedIn
  have token := printable.token (.reference translated (symbol.trans inside) unbound)
  have natural := printable.references ctx q e r c indices translated inside name
  rw [translateAux_variableName name printed]
  refine isToken_cellName (isToken_symbolName (printable.plainPrefix translated) token) ?_
  intro i listed
  exact natural i (List.mem_reverse.mp listed)

end

/-! ## Reading a file -/

theorem mem_linesOf {trace : List Output} {l : Line} : l ∈ linesOf trace ↔ .line l ∈ trace := by
  unfold linesOf
  rw [List.mem_filterMap]
  constructor
  · rintro ⟨o, inside, same⟩
    cases o with
    | line l' =>
        cases same
        exact inside
    | _ => cases same
  · intro inside
    exact ⟨_, inside, rfl⟩

/-- The file of a translation without error is read back as the lines that were
written, each of them by itself as well, if the names that are printed are plain:
names of the model without `$` and `#`, indices and parameter values that are not
negative. -/
theorem lines_read_back {env : Env} {tas : TimedAutomataSystem} {d : Dumps} {o : Options}
    (lexed : ∀ s, Mentioned env tas s → Lexed env s) (oneLine : d.OneLine)
    (source : 0 < o.verboseLevel → '\n' ∉ (o.inputFilename.getD "stdin").toList)
    (plain : PlainNames env tas) {st' : TrState}
    (run : exec (translateSystem env (sGetSystemId o) tas) .initial = (.ok (), st')) :
    readModel (fileText d (header o ++ st'.trace)) = some st'.lines ∧
      (∀ l ∈ st'.lines, Readable l ∧ readLine (render l).toList = some l) ∧
      ∀ ctx q e r c indices text, Translated env tas ctx q e → PrintedIn env (some q) r e →
        VariableName env (some q) r c indices →
        translateExpression env (some q) r ctx = .ok text → IsToken text := by
  have printable : Printable env tas d := ⟨plain, lexed, oneLine⟩
  have legible := printable.legible (unseparated_systemId o) run
  refine ⟨?_, fun l inside => ?_, ?_⟩
  · rw [readModel_fileText]
    · exact congrArg some (linesOf_header o st'.trace)
    · intro out inside
      rcases List.mem_append.mp inside with comment | written
      · exact writable_header d source out comment
      · exact legible.written out written
  · have readable : Readable l := legible.written _ (mem_linesOf.mp inside)
    exact ⟨readable, readLine_render readable⟩
  · intro ctx q e r c indices text translated inside name printed
    exact printable.variableName translated inside name printed

/-! ## A clock with a sign in its name -/

/-- Dumps of the declarations of clocks. -/
def clockDumps : Dumps := ⟨fun _ => "", fun _ => "(clock)", fun _ => ""⟩

/-- The options without a verbose flag. -/
def quietOptions : Options := { Options.initial with sysname := some "S" }

/-- The lexer accepts a clock `y#1`; its line ends at the sign when it is read. -/
theorem sign_ends_line :
    ∃ st', exec (translateSystem (clocksEnv "y#1") (sGetSystemId quietOptions) clocksModel) .initial =
        (.ok (), st') ∧ Lexed (clocksEnv "y#1") 1 ∧ Line.clock "y#1" 1 ∈ st'.lines ∧
      ¬ IsToken "y#1" ∧
      readLine ((render (.clock "y#1" 1)).toList.takeWhile (· ≠ '#')) = some (.clock "y" 1) ∧
      readModel (fileText clockDumps (header quietOptions ++ st'.trace)) ≠ some st'.lines := by
  refine ⟨_, rfl, ?_, by decide, by decide, ?_, ?_⟩
  · exact (by decide : isIdentifier ((clocksEnv "y#1").getName 1).toList = true)
  · decide
  · decide

end Utot
