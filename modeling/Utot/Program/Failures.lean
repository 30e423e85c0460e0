import Utot.Program.CommandLine
import Utot.Run.Faults
import Utot.Library.Frame

/-!
# Failed translations

What `main` leaves behind when `tr_err` is raised, what a successful exit says
about the output, and what happens to an output file that exists already.
-/

namespace Utot

open Utap Library

variable {render : Output → String} {parser : Parser} {stack : Nat} {o : Options} {parsed : Parsed}

/-! ## The translation as `main` sees it -/

/-- The state in which the `try` block of `translate_model` starts. -/
def translationStart (env : Env) : TrState :=
  (exec (msg env.verboseLevel vlProgress [.text "starting translation.\n"]) .initial).2

section

variable {env : Env} {sysname : String} {tas : TimedAutomataSystem} {st st' : TrState}

theorem destroyDeclarations_of_none {decls : Declarations} (none : decls.sharesBodies = false)
    (destroyed : Nat) : destroyDeclarations decls destroyed = .ok () := by
  unfold destroyDeclarations
  rw [none, if_neg (by simp)]

theorem destroyDeclarations_again {decls : Declarations} (some : decls.sharesBodies = true) :
    destroyDeclarations decls 1 = .error (.undefined "double delete") := by
  unfold destroyDeclarations
  rw [if_pos ⟨some, Nat.one_pos⟩]

/-- The statements of the `try` block one after the other. -/
theorem translateSystem_eq : translateSystem env sysname tas = (do
    writeLine (.system sysname)
    translateDeclarations env none [] tas.globals
    registerIoSections env tas.globals
    tas.processes.forM (sTranslateProcess env)
    sDisplayTableOfEvents env
    sGenerateSyncVectors) := by
  simp only [translateSystem, translateProcesses, bind_assoc]

theorem exec_translateBlock_ok (run : exec (translateSystem env sysname tas) st = (.ok (), st')) :
    exec (translateBlock env sysname tas) st =
      ((destroyDeclarations tas.globals (registeredCopies tas.globals)).map fun _ => true, st') := by
  have named : exec (writeLine (.system sysname)) st = (.ok (), st.writeLine (.system sysname)) := rfl
  rw [translateSystem_eq, exec_bind_ok named] at run
  unfold translateBlock
  rw [exec_bind_ok named]
  rcases declared : exec (translateDeclarations env none [] tas.globals) (st.writeLine (.system sysname))
    with ⟨fault | _, middle⟩
  · rw [exec_bind_error declared] at run
    cases run
  · rw [exec_bind_ok declared] at run ⊢
    rw [exec_bind, exec_leaving_ok run]
    cases destroyDeclarations tas.globals (registeredCopies tas.globals) <;> rfl

/-- The destructor of `globals` can replace an error by its own. -/
theorem exec_translateBlock_error {fault : Fault}
    (run : exec (translateSystem env sysname tas) st = (.error fault, st')) :
    ∃ fault', exec (translateBlock env sysname tas) st = (.error fault', st') ∧
      (fault' = fault ∨
        destroyDeclarations tas.globals (registeredCopies tas.globals) = .error fault') := by
  have named : exec (writeLine (.system sysname)) st = (.ok (), st.writeLine (.system sysname)) := rfl
  rw [translateSystem_eq, exec_bind_ok named] at run
  unfold translateBlock
  rw [exec_bind_ok named]
  rcases declared : exec (translateDeclarations env none [] tas.globals) (st.writeLine (.system sysname))
    with ⟨other | _, middle⟩
  · rw [exec_bind_error declared] at run ⊢
    cases run
    exact ⟨fault, rfl, .inl rfl⟩
  · rw [exec_bind_ok declared] at run ⊢
    obtain ⟨fault', left, reason⟩ := leaving_fails run
    exact ⟨fault', exec_bind_error left, reason⟩

theorem sliced_destroyDeclarations (decls : Declarations) (destroyed : Nat) :
    Fails Sliced (destroyDeclarations decls destroyed) :=
  Fails.branch (Fails.raise trivial) (Fails.ret _)

theorem msg_returns (args : List Arg) (st : TrState) :
    exec (msg env.verboseLevel vlProgress args) st =
      (.ok (), (exec (msg env.verboseLevel vlProgress args) st).2) := by
  refine Prod.ext ?_ rfl
  unfold msg
  split
  · rfl
  · rfl

theorem exec_translateModel_ok {result : Bool}
    (run : exec (translateBlock env sysname tas) (translationStart env) = (.ok result, st)) :
    exec (translateModel env sysname tas) .initial = (.ok result,
      (exec (msg env.verboseLevel vlProgress [.text "translation terminated.\n"]) st).2) := by
  have start : exec (msg env.verboseLevel vlProgress [.text "starting translation.\n"]) .initial =
      (.ok (), translationStart env) := msg_returns _ _
  unfold translateModel
  rw [exec_bind_ok start, exec_bind_ok (exec_tryCatch_ok run), exec_bind_ok (msg_returns _ st)]
  rfl

/-- The handler of `translate_model` never runs. -/
theorem exec_translateModel_error {fault : Fault}
    (run : exec (translateBlock env sysname tas) (translationStart env) = (.error fault, st)) :
    exec (translateModel env sysname tas) .initial = (.error fault, st) := by
  have sliced : Sliced fault := by
    rcases whole : exec (translateSystem env sysname tas) (translationStart env) with ⟨fault' | _, st'⟩
    · obtain ⟨fault'', run', same | destroyed⟩ := exec_translateBlock_error whole
      all_goals
        rw [run] at run'
        cases run'
      · subst same
        exact throws_translateSystem env sysname tas _ _ (by rw [whole])
      · exact sliced_destroyDeclarations _ _ _ destroyed
    · rw [exec_translateBlock_ok whole] at run
      cases destroyed : destroyDeclarations tas.globals (registeredCopies tas.globals) with
      | error fault' =>
          rw [destroyed] at run
          cases run
          exact sliced_destroyDeclarations _ _ _ destroyed
      | ok _ =>
          rw [destroyed] at run
          cases run
  have start : exec (msg env.verboseLevel vlProgress [.text "starting translation.\n"]) .initial =
      (.ok (), translationStart env) := msg_returns _ _
  unfold translateModel
  rw [exec_bind_ok start]
  refine exec_bind_error ?_
  rw [exec_tryCatch_error run]
  cases fault with
  | thrown cls args =>
      cases sliced
      rfl
  | _ => rfl

/-- Without bodies that are shared the outcome is that of the statements. -/
theorem exec_translateModel_of_none (none : tas.globals.sharesBodies = false) :
    exec (translateModel env sysname tas) .initial =
      match exec (translateSystem env sysname tas) (translationStart env) with
      | (.ok _, st) =>
          (.ok true, (exec (msg env.verboseLevel vlProgress [.text "translation terminated.\n"]) st).2)
      | (.error fault, st) => (.error fault, st) := by
  have harmless := destroyDeclarations_of_none none (registeredCopies tas.globals)
  rcases run : exec (translateSystem env sysname tas) (translationStart env) with ⟨fault | _, st⟩
  · obtain ⟨fault', block, same | destroyed⟩ := exec_translateBlock_error run
    · rw [exec_translateModel_error block, same]
    · rw [harmless] at destroyed
      cases destroyed
  · have block := exec_translateBlock_ok run
    rw [harmless] at block
    exact exec_translateModel_ok block

/-- Behind the statements a message is written at most. -/
theorem translateModel_state :
    (exec (translateModel env sysname tas) .initial).2 =
        (exec (translateSystem env sysname tas) (translationStart env)).2 ∨
      (exec (translateModel env sysname tas) .initial).2 =
        (exec (msg env.verboseLevel vlProgress [.text "translation terminated.\n"])
          (exec (translateSystem env sysname tas) (translationStart env)).2).2 := by
  rcases run : exec (translateSystem env sysname tas) (translationStart env) with ⟨fault | _, st⟩
  · obtain ⟨fault', block, _⟩ := exec_translateBlock_error run
    rw [exec_translateModel_error block]
    exact .inl rfl
  · have block := exec_translateBlock_ok run
    cases destroyed : destroyDeclarations tas.globals (registeredCopies tas.globals) with
    | error fault =>
        rw [destroyed] at block
        rw [exec_translateModel_error block]
        exact .inl rfl
    | ok _ =>
        rw [destroyed] at block
        rw [exec_translateModel_ok block]
        exact .inr rfl

end

/-- `tr_err` is raised: nothing else throws in a translation. -/
def Raises (stack : Nat) (o : Options) (parsed : Parsed) : Prop :=
  ∃ cls args st, exec (translateSystem (environment stack o parsed) (sGetSystemId o) parsed.system)
    (translationStart (environment stack o parsed)) = (.error (.thrown cls args), st)

/-- Everything a translation writes. -/
def translationTrace (stack : Nat) (o : Options) (parsed : Parsed) : List Output :=
  (exec (translateModel (environment stack o parsed) (sGetSystemId o) parsed.system) .initial).2.trace

/-! ## Files -/

/-- What leaves the files and the name of the output file alone. -/
def filesFrame : Frame Machine where
  rel m m' := m'.files = m.files ∧ m'.creatable = m.creatable ∧ m'.outputFilename = m.outputFilename
  refl _ := ⟨rfl, rfl, rfl⟩
  trans first second :=
    ⟨second.1.trans first.1, second.2.1.trans first.2.1, second.2.2.trans first.2.2⟩

theorem keeps_say (level : Nat) (args : List Arg) : Keeps filesFrame (say render o level args) :=
  Keeps.branch (Keeps.update fun _ => ⟨rfl, rfl, rfl⟩) (Keeps.ret _)

/-- How the messages of `main` up to the opening of the output file begin. -/
def loadingTexts : List String :=
  ["warning: ", "reading input from: ", "parsing ", "translating model into tchecker file format.\n"]

section

variable {R : Frame Machine} (spoken : ∀ level ≤ vlProgress, ∀ text ∈ loadingTexts, ∀ args,
  Keeps R (say render o level (.text text :: args)))

include spoken

theorem keeps_enforce {α : Type} [DecidableEq α] (what : String) (name : α → String)
    (extpos : Option String) (absent enforced found : α) :
    Keeps R (enforce render o what name extpos absent enforced found) :=
  Keeps.branch (Keeps.ret _) (Keeps.branch (Keeps.ret _)
    (Keeps.bind (spoken _ (by decide) _ (by decide) _) fun _ => Keeps.ret _))

theorem keeps_computeInputLanguage : Keeps R (sComputeInputLanguage render o) := by
  unfold sComputeInputLanguage
  cases o.inputFilename with
  | none => exact Keeps.ret _
  | some filename =>
      refine Keeps.bind ?_ fun found => Keeps.bind (keeps_enforce spoken _ _ _ _ _ _) fun _ =>
        Keeps.bind (keeps_enforce spoken _ _ _ _ _ _) fun _ => Keeps.ret _
      cases extension? filename with
      | none => exact Keeps.ret _
      | some ext =>
          unfold byExtension
          dsimp only
          cases languageOf ext with
          | none => exact Keeps.bind (spoken _ (by decide) _ (by decide) _) fun _ => Keeps.ret _
          | some found => exact Keeps.ret _

theorem keeps_readInputfile : Keeps R (sReadInputfile render o) := by
  refine Keeps.bind Keeps.read fun m => ?_
  cases o.inputFilename with
  | none => exact Keeps.bind (spoken _ (by decide) _ (by decide) _) fun _ => Keeps.ret _
  | some filename =>
      dsimp only
      cases m.files[filename]? with
      | none => exact Keeps.lift _
      | some file =>
          exact Keeps.branch (Keeps.bind (spoken _ (by decide) _ (by decide) _) fun _ => Keeps.ret _)
            (Keeps.lift _)

theorem keeps_plainByDefault (fmt : FileFormat) : Keeps R (plainByDefault render o fmt) :=
  Keeps.branch (Keeps.bind (spoken _ (by decide) _ (by decide) _) fun _ => Keeps.ret _) (Keeps.ret _)

theorem keeps_printWarnings (parsed : Parsed) : Keeps R (printWarnings render o parsed) :=
  Keeps.branch (Keeps.forM fun _ _ => spoken _ (by decide) _ (by decide) _) (Keeps.ret _)

theorem keeps_loadModel : Keeps R (loadModel render parser o) := by
  refine Keeps.bind (keeps_computeInputLanguage spoken) fun found => Keeps.branch (Keeps.lift _) ?_
  refine Keeps.bind (keeps_plainByDefault spoken _) fun fmt =>
    Keeps.bind (keeps_readInputfile spoken) fun input => ?_
  refine Keeps.bind (spoken _ (by decide) _ (by decide) _) fun _ =>
    Keeps.bind (keeps_printWarnings spoken _) fun _ => Keeps.branch (Keeps.lift _) ?_
  exact Keeps.bind (spoken _ (by decide) _ (by decide) _) fun _ => Keeps.ret _

end

/-- The output file of a command line can be opened. -/
def opens (m : Machine) (o : Options) (name : String) : Bool :=
  (!sFileExists m name || o.eraseOutput) && m.canOpen name

/-- An opened file is empty and has a new stamp; the others are as before. -/
structure Opened (m m' : Machine) (name : String) : Prop where
  empty : ∃ file, m'.files[name]? = some file ∧ file.content = "" ∧
    ∀ before, m.files[name]? = some before → file.stamp ≠ before.stamp
  others : ∀ other, other ≠ name → m'.files[other]? = m.files[other]?
  outputFilename : m'.outputFilename = m.outputFilename
  stdout : m'.stdout = m.stdout

theorem opened_truncate (m : Machine) (name : String) : Opened m (m.truncate name) name := by
  have elsewhere : ∀ (file : File) (other : String), other ≠ name →
      (m.files.insert name file)[other]? = m.files[other]? := by
    intro file other differs
    rw [Std.TreeMap.getElem?_insert, if_neg]
    intro same
    exact differs (Std.compare_eq_iff_eq.mp same).symm
  unfold Machine.truncate
  cases found : m.files[name]? with
  | none =>
      constructor
      · refine ⟨⟨"", true, true, 0⟩, by simp, rfl, fun before same => ?_⟩
        rw [found] at same
        cases same
      · exact elsewhere _
      · rfl
      · rfl
  | some file =>
      constructor
      · refine ⟨{ file with content := "", stamp := file.stamp + 1 }, by simp, rfl,
          fun before same => ?_⟩
        rw [found] at same
        cases same
        exact Nat.succ_ne_self _
      · exact elsewhere _
      · rfl
      · rfl

/-- `s_open_output_file` on a name: it is opened, or nothing happens. -/
theorem exec_openOutputFile {name : String} (named : o.outputFilename = some name) (m : Machine) :
    exec (sOpenOutputFile o) m =
        (.ok (.file name), m.truncate name) ∧ opens m o name = true ∨
      (∃ args, exec (sOpenOutputFile o) m = (.error (.thrown .exception args), m)) ∧
        opens m o name = false := by
  unfold sOpenOutputFile opens
  rw [named]
  dsimp only
  rw [exec_bind_ok (exec_get m)]
  by_cases refused : sFileExists m name = true ∧ ¬ o.eraseOutput = true
  · right
    rw [if_pos refused]
    refine ⟨⟨_, rfl⟩, ?_⟩
    simp [refused.1, refused.2]
  · rw [if_neg refused]
    have allowed : (!sFileExists m name || o.eraseOutput) = true := by
      by_contra kept
      rw [Bool.or_eq_true, not_or] at kept
      exact refused ⟨by simpa using kept.1, kept.2⟩
    rw [allowed]
    cases openable : m.canOpen name with
    | false =>
        right
        exact ⟨⟨_, rfl⟩, rfl⟩
    | true =>
        left
        exact ⟨rfl, rfl⟩

/-- What arrives in a file is added to its content. -/
theorem deliver_file {m : Machine} {name : String} {file : File} (found : m.files[name]? = some file)
    (outputs : List Output) :
    (m.deliver render (.file name) outputs).files = m.files.insert name
      (file.append (textOf render (outputs.filter fun o => !isMessage o))) := by
  change (m.append name _).files = _
  unfold Machine.append
  rw [found]

theorem exec_deliver (sink : Sink) (outputs : List Output) (m : Machine) :
    exec (deliver render sink outputs) m = (.ok (), m.deliver render sink outputs) := rfl

theorem exec_onSink {α : Type} (sink : Sink) (program : Tr α) (m : Machine) :
    exec (onSink render sink program) m =
      ((exec program .initial).1, m.deliver render sink (exec program .initial).2.trace) := rfl

theorem textOf_append (first second : List Output) :
    textOf render (first ++ second) = textOf render first ++ textOf render second := by
  unfold textOf
  rw [List.map_append, String.join_append]

/-! ## One run -/

/-- The translation returned. -/
def Finishes (stack : Nat) (o : Options) (parsed : Parsed) : Prop :=
  ∃ st, exec (translateSystem (environment stack o parsed) (sGetSystemId o) parsed.system)
    (translationStart (environment stack o parsed)) = (.ok (), st)

/-- The exit status tells how the translation ended.  Functions with a body are deleted twice. -/
structure Reports (stack : Nat) (o : Options) (parsed : Parsed) (exit : Exit) : Prop where
  success : exit = .success ↔ Finishes stack o parsed ∧ parsed.system.globals.sharesBodies = false
  failure : exit = .failure ↔ Raises stack o parsed ∧ parsed.system.globals.sharesBodies = false

/-- The handlers remove nothing, because no `translation_exception` arrives there. -/
theorem handleFault_of_sliced {fault : Fault} (sliced : Sliced fault) (m : Machine) :
    (handleFault fault m).2 = m ∧ (handleFault fault m).1 ≠ .success ∧
      ((handleFault fault m).1 = .failure ↔ ∃ cls args, fault = .thrown cls args) := by
  cases fault with
  | thrown cls args =>
      cases sliced
      exact ⟨rfl, by rintro ⟨⟩, fun _ => ⟨_, _, rfl⟩, fun _ => rfl⟩
  | assertion what => exact ⟨rfl, by rintro ⟨⟩, by rintro ⟨⟩, by rintro ⟨_, _, ⟨⟩⟩⟩
  | undefined what => exact ⟨rfl, by rintro ⟨⟩, by rintro ⟨⟩, by rintro ⟨_, _, ⟨⟩⟩⟩
  | stackOverflow => exact ⟨rfl, by rintro ⟨⟩, by rintro ⟨⟩, by rintro ⟨_, _, ⟨⟩⟩⟩

theorem exec_writing (sink : Sink) (m : Machine) :
    exec (writing render stack o parsed sink) m =
      ((exec (translateModel (environment stack o parsed) (sGetSystemId o) parsed.system) .initial).1.map
        fun _ => (),
       (m.deliver render sink (header o)).deliver render sink (translationTrace stack o parsed)) := by
  unfold writing translationTrace
  rw [exec_bind_ok (exec_deliver sink _ m), exec_bind, exec_onSink]
  cases (exec (translateModel (environment stack o parsed) (sGetSystemId o) parsed.system)
    .initial).1 <;> rfl

/-- Bodies that are shared are deleted for the second time when `tas` is destroyed, if not before. -/
theorem finish_shared (some : parsed.system.globals.sharesBodies = true) {outcome : Except Fault Unit}
    {block : Io Unit} {m m' : Machine} (run : exec block m = (outcome, m')) :
    finish (exec (leaving Fault.unwinds (destroyDeclarations parsed.system.globals 1) block) m) =
      (.abnormal, m') := by
  rw [destroyDeclarations_again some]
  cases outcome with
  | ok result =>
      rw [exec_leaving_ok run]
      rfl
  | error fault =>
      rw [exec_leaving_error run]
      cases fault <;> rfl

/-- The status that follows. -/
theorem finish_writes (sink : Sink) (m : Machine) :
    ∃ exit, Reports stack o parsed exit ∧
      finish (exec (leaving Fault.unwinds (destroyDeclarations parsed.system.globals 1)
        (writing render stack o parsed sink)) m) =
        (exit, (m.deliver render sink (header o)).deliver render sink
          (translationTrace stack o parsed)) := by
  cases bodies : parsed.system.globals.sharesBodies with
  | true =>
      refine ⟨.abnormal, ⟨?_, ?_⟩, finish_shared bodies (exec_writing sink m)⟩
      all_goals
        rw [bodies]
        constructor
        · rintro ⟨⟩
        · rintro ⟨_, ⟨⟩⟩
  | false =>
      have outcome := @exec_translateModel_of_none (environment stack o parsed) (sGetSystemId o) _ bodies
      have sliced := throws_translateSystem (environment stack o parsed) (sGetSystemId o) parsed.system
        (translationStart (environment stack o parsed))
      rw [exec_leaving (destroyDeclarations_of_none bodies 1), exec_writing, outcome]
      rcases run : exec (translateSystem (environment stack o parsed) (sGetSystemId o) parsed.system)
        (translationStart (environment stack o parsed)) with ⟨fault | _, st⟩
      · have thrown : Sliced fault := sliced fault (by rw [run])
        obtain ⟨kept, failed, raised⟩ := handleFault_of_sliced thrown
          ((m.deliver render sink (header o)).deliver render sink (translationTrace stack o parsed))
        refine ⟨_, ⟨?_, ?_⟩, Prod.ext rfl kept⟩
        · constructor
          · intro success
            exact absurd success failed
          · rintro ⟨⟨st', returned⟩, _⟩
            rw [run] at returned
            cases returned
        · refine raised.trans ⟨?_, ?_⟩
          · rintro ⟨cls, args, rfl⟩
            exact ⟨⟨cls, args, st, run⟩, bodies⟩
          · rintro ⟨⟨cls, args, st', returned⟩, _⟩
            rw [run] at returned
            cases returned
            exact ⟨cls, args, rfl⟩
      · refine ⟨.success, ⟨⟨fun _ => ⟨⟨st, run⟩, bodies⟩, fun _ => rfl⟩, ?_⟩, rfl⟩
        constructor
        · rintro ⟨⟩
        · rintro ⟨⟨cls, args, st', returned⟩, _⟩
          rw [run] at returned
          cases returned

/-- `main` on a command line whose input parses and type-checks. -/
structure Accepted (render : Output → String) (parser : Parser) (answers : List GetoptAnswer)
    (operands : List String) (m : Machine) (o : Options) (parsed : Parsed) : Prop where
  options : sParseOptions answers operands = .ok o
  translating : o.showHelp = false ∧ o.showVersion = false
  loaded : (exec (loadModel render parser o) { m with outputFilename := o.outputFilename }).1 =
    .ok parsed

theorem main_eq {answers : List GetoptAnswer} {operands : List String} {m : Machine}
    (usage version : Output) (accepted : Accepted render parser answers operands m o parsed) :
    main render parser stack usage version answers operands m =
      finish (exec (writeModel render stack o parsed)
        (exec (loadModel render parser o) { m with outputFilename := o.outputFilename }).2) := by
  have loaded : exec (loadModel render parser o) { m with outputFilename := o.outputFilename } =
      (.ok parsed, _) := Prod.ext accepted.loaded rfl
  have body : exec (mainBody render parser stack usage version answers operands)
      { m with outputFilename := none } = exec (writeModel render stack o parsed)
        (exec (loadModel render parser o) { m with outputFilename := o.outputFilename }).2 := by
    unfold mainBody
    rw [accepted.options, exec_bind_ok (exec_fromExcept _ _), exec_bind_ok (exec_modify _ _)]
    rw [accepted.translating.1, accepted.translating.2, if_neg (by simp), if_neg (by simp)]
    rw [exec_bind_ok loaded]
  unfold main
  rw [body]

section Runs

variable {answers : List GetoptAnswer} {operands : List String} {m : Machine} {usage version : Output}

/-- The machine once the input has been read. -/
def afterLoading (render : Output → String) (parser : Parser) (o : Options) (m : Machine) : Machine :=
  (exec (loadModel render parser o) { m with outputFilename := o.outputFilename }).2

theorem afterLoading_files (render : Output → String) (parser : Parser) (o : Options) (m : Machine) :
    (afterLoading render parser o m).files = m.files ∧
    (afterLoading render parser o m).creatable = m.creatable := by
  obtain ⟨files, creatable, _⟩ := @keeps_loadModel render parser o filesFrame
    (fun level _ text _ args => keeps_say level _) { m with outputFilename := o.outputFilename }
  exact ⟨files, creatable⟩

theorem opens_afterLoading (name : String) :
    opens (afterLoading render parser o m) o name = opens m o name := by
  obtain ⟨files, creatable⟩ := afterLoading_files render parser o m
  unfold opens sFileExists Machine.canOpen
  rw [files, creatable]

/-- Once the outputter has its sink, the header and the model go there. -/
theorem main_of_sink (stack : Nat) (usage version : Output)
    (accepted : Accepted render parser answers operands m o parsed) {sink : Sink} {m' : Machine}
    (opened : exec (sOpenOutputFile o) (afterLoading render parser o m) = (.ok sink, m')) :
    ∃ exit, Reports stack o parsed exit ∧
      main render parser stack usage version answers operands m =
        (exit, (m'.deliver render sink (header o)).deliver render sink
          (translationTrace stack o parsed)) := by
  obtain ⟨exit, reports, run⟩ := @finish_writes render stack o parsed sink m'
  refine ⟨exit, reports, ?_⟩
  rw [main_eq usage version accepted, ← run]
  unfold writeModel
  exact congrArg finish (exec_bind_ok opened)

/-- Without an output file no file is touched. -/
theorem main_stdout (accepted : Accepted render parser answers operands m o parsed)
    (unnamed : o.outputFilename = none) :
    ∃ exit after, main render parser stack usage version answers operands m = (exit, after) ∧
      Reports stack o parsed exit ∧ after.files = m.files ∧ after.stdout =
        (afterLoading render parser o m).stdout ++
          textOf render (header o ++ translationTrace stack o parsed) := by
  have opened : exec (sOpenOutputFile o) (afterLoading render parser o m) =
      (.ok .stdout, { afterLoading render parser o m with outputFilename := some "stdout" }) := by
    unfold sOpenOutputFile
    rw [unnamed]
    rfl
  obtain ⟨exit, reports, run⟩ := main_of_sink stack usage version accepted opened
  refine ⟨exit, _, run, reports, (afterLoading_files render parser o m).1, ?_⟩
  rw [textOf_append, ← String.append_assoc]
  rfl

/-- An output file that cannot be opened ends the program. -/
theorem main_refused (accepted : Accepted render parser answers operands m o parsed) {name : String}
    (named : o.outputFilename = some name) (refused : opens m o name = false) :
    ∃ after, main render parser stack usage version answers operands m = (.failure, after) ∧
      after.files = m.files := by
  refine ⟨afterLoading render parser o m, ?_, (afterLoading_files render parser o m).1⟩
  rw [main_eq usage version accepted]
  rcases exec_openOutputFile named (afterLoading render parser o m) with ⟨_, opened⟩ | ⟨failed, _⟩
  · rw [opens_afterLoading, refused] at opened
    cases opened
  · obtain ⟨args, failed⟩ := failed
    unfold writeModel
    exact congrArg finish (exec_bind_error failed)

theorem header_messages : (header o).filter (fun output => !isMessage output) = header o := by
  unfold header
  split
  · rfl
  · rfl

/-- An output file that can be opened ends up with what was written, whatever
the exit status. -/
theorem main_opened (accepted : Accepted render parser answers operands m o parsed) {name : String}
    (named : o.outputFilename = some name) (opened : opens m o name = true) :
    ∃ exit after, main render parser stack usage version answers operands m = (exit, after) ∧
      Reports stack o parsed exit ∧ (∀ other, other ≠ name → after.files[other]? = m.files[other]?) ∧
      ∃ file, after.files[name]? = some file ∧
        (∀ before, m.files[name]? = some before → file.stamp ≠ before.stamp) ∧
        file.content = textOf render (header o ++
          (translationTrace stack o parsed).filter fun output => !isMessage output) := by
  obtain ⟨same, _⟩ := afterLoading_files render parser o m
  have truncated := opened_truncate (afterLoading render parser o m) name
  obtain ⟨file, present, empty, stamped⟩ := truncated.empty
  have success : exec (sOpenOutputFile o) (afterLoading render parser o m) =
      (.ok (.file name), (afterLoading render parser o m).truncate name) := by
    rcases exec_openOutputFile named (afterLoading render parser o m) with ⟨run, _⟩ | ⟨_, failed⟩
    · exact run
    · rw [opens_afterLoading, opened] at failed
      cases failed
  obtain ⟨exit, reports, run⟩ := main_of_sink stack usage version accepted success
  have headed := @deliver_file render _ name file present (header o)
  have middle : (((afterLoading render parser o m).truncate name).deliver render (.file name)
      (header o)).files[name]? = some (file.append (textOf render (header o))) := by
    rw [headed, header_messages]
    exact Std.TreeMap.getElem?_insert_self
  have written := @deliver_file render _ name _ middle (translationTrace stack o parsed)
  refine ⟨exit, _, run, reports, ?_, ?_⟩
  · intro other differs
    have apart : compare name other ≠ .eq := fun equal => differs (Std.compare_eq_iff_eq.mp equal).symm
    rw [written, headed, Std.TreeMap.getElem?_insert, if_neg apart, Std.TreeMap.getElem?_insert,
      if_neg apart, truncated.others other differs, same]
  · rw [written, Std.TreeMap.getElem?_insert_self]
    refine ⟨_, rfl, fun before found => stamped before (by rw [same]; exact found), ?_⟩
    change file.content ++ textOf render (header o) ++ _ = _
    rw [textOf_append, empty, String.empty_append]

end Runs

/-! ## What is left behind -/

/-- The model has arrived where the command line says. -/
def ModelWritten (render : Output → String) (stack : Nat) (o : Options) (parsed : Parsed)
    (after : Machine) : Prop :=
  Finishes stack o parsed ∧
    match o.outputFilename with
    | some name => ∃ file, after.files[name]? = some file ∧
        file.content = textOf render (header o ++
          (translationTrace stack o parsed).filter fun output => !isMessage output)
    | none => ∃ earlier, after.stdout =
        earlier ++ textOf render (header o ++ translationTrace stack o parsed)

/-- A failed translation leaves nothing behind, a successful exit means that the
model was written, and an existing output file is kept unless it is to be erased. -/
structure LeavesNothingBehind (render : Output → String) (stack : Nat) (o : Options)
    (parsed : Parsed) (before : Machine) (exit : Exit) (after : Machine) : Prop where
  /-- When the translation is reached and raises an error. -/
  failure : (∀ name, o.outputFilename = some name → opens before o name = true) →
    Raises stack o parsed →
    exit = .failure ∧ ∀ name, o.outputFilename = some name → after.files[name]? = none
  others : ∀ name, o.outputFilename ≠ some name → after.files[name]? = before.files[name]?
  success : exit = .success → ModelWritten render stack o parsed after
  untouched : ∀ name file, o.outputFilename = some name → before.files[name]? = some file →
    o.eraseOutput = false → after.files[name]? = some file

/-- No output file is opened for a translation that raises an error; one that raises an error on
the standard output has no global functions with bodies; and no file that exists without being
readable is opened without the erase option. -/
structure Harmless (stack : Nat) (o : Options) (parsed : Parsed) (before : Machine) : Prop where
  opened : Raises stack o parsed → ∀ name, o.outputFilename = some name →
    opens before o name = false
  bodiless : Raises stack o parsed → o.outputFilename = none →
    parsed.system.globals.sharesBodies = false
  hidden : ∀ name file, o.outputFilename = some name → before.files[name]? = some file →
    o.eraseOutput = false → file.readable = true ∨ file.writable = false

theorem opens_of_present {m : Machine} {name : String} {file : File}
    (present : m.files[name]? = some file) :
    opens m o name = ((!file.readable || o.eraseOutput) && file.writable) := by
  unfold opens sFileExists Machine.canOpen
  rw [present]

section

variable {answers : List GetoptAnswer} {operands : List String} {m : Machine} {usage version : Output}

/-- Without an output file nothing can be left behind, unless bodies are deleted twice. -/
theorem leavesNothingBehind_stdout (accepted : Accepted render parser answers operands m o parsed)
    (named : o.outputFilename = none) :
    LeavesNothingBehind render stack o parsed m
        (main render parser stack usage version answers operands m).1
        (main render parser stack usage version answers operands m).2 ↔
      Harmless stack o parsed m := by
  obtain ⟨exit, after, run, reports, files, written⟩ := main_stdout accepted named
  have unnamed : ∀ name, o.outputFilename ≠ some name := by simp [named]
  rw [run]
  constructor
  · intro leaves
    refine ⟨fun _ name same => absurd same (unnamed name), fun raises _ => ?_,
      fun name _ same => absurd same (unnamed name)⟩
    have failed := (leaves.failure (fun name same => absurd same (unnamed name)) raises).1
    exact (reports.failure.mp failed).2
  · intro harmless
    constructor
    · intro _ raises
      exact ⟨reports.failure.mpr ⟨raises, harmless.bodiless raises named⟩,
        fun name same => absurd same (unnamed name)⟩
    · intro name _
      rw [files]
    · intro success
      refine ⟨(reports.success.mp success).1, ?_⟩
      rw [named]
      exact ⟨_, written⟩
    · intro name file same
      exact absurd same (unnamed name)

/-- A translation that is not reached leaves nothing behind. -/
theorem leavesNothingBehind_refused (accepted : Accepted render parser answers operands m o parsed)
    {name : String} (named : o.outputFilename = some name) (opened : opens m o name = false) :
    LeavesNothingBehind render stack o parsed m
        (main render parser stack usage version answers operands m).1
        (main render parser stack usage version answers operands m).2 ↔
      Harmless stack o parsed m := by
  have only {other : String} (same : o.outputFilename = some other) : other = name :=
    Option.some.inj (same.symm.trans named)
  obtain ⟨after, run, files⟩ := main_refused accepted named opened
  rw [run]
  constructor
  · intro _
    constructor
    · intro _ other same
      rw [only same]
      exact opened
    · intro _ unnamed
      cases named.symm.trans unnamed
    · intro other file same present keep
      rw [only same] at present
      rw [opens_of_present present, keep, Bool.or_false, Bool.and_eq_false_iff] at opened
      simpa using opened
  · intro _
    constructor
    · intro reached _
      rw [reached name named] at opened
      cases opened
    · intro other _
      rw [files]
    · rintro ⟨⟩
    · intro other file _ present _
      rw [files]
      exact present

/-- The output file of a translation that raises an error stays, and a file that was not
readable is gone. -/
theorem leavesNothingBehind_opened (accepted : Accepted render parser answers operands m o parsed)
    {name : String} (named : o.outputFilename = some name) (opened : opens m o name = true) :
    LeavesNothingBehind render stack o parsed m
        (main render parser stack usage version answers operands m).1
        (main render parser stack usage version answers operands m).2 ↔
      Harmless stack o parsed m := by
  have only {other : String} (same : o.outputFilename = some other) : other = name :=
    Option.some.inj (same.symm.trans named)
  obtain ⟨exit, after, run, reports, others, file, written, stamped, content⟩ :=
    main_opened accepted named opened
  have reached : ∀ other, o.outputFilename = some other → opens m o other = true := by
    intro other same
    rw [only same]
    exact opened
  rw [run]
  constructor
  · intro leaves
    constructor
    · intro raises other same
      have removed := (leaves.failure reached raises).2 name named
      rw [written] at removed
      cases removed
    · intro _ unnamed
      cases named.symm.trans unnamed
    · intro other before same present keep
      have kept := leaves.untouched other before same present keep
      rw [only same] at present kept
      rw [written] at kept
      exact absurd (congrArg File.stamp (Option.some.inj kept)) (stamped before present)
  · intro harmless
    constructor
    · intro _ raises
      have closed := harmless.opened raises name named
      rw [opened] at closed
      cases closed
    · intro other differs
      exact others other fun same => differs (same ▸ named)
    · intro success
      refine ⟨(reports.success.mp success).1, ?_⟩
      rw [named]
      exact ⟨file, written, content⟩
    · intro other before same present keep
      have visible := harmless.hidden other before same present keep
      rw [only same] at present
      rw [opens_of_present present, keep, Bool.or_false, Bool.and_eq_true] at opened
      rcases visible with readable | locked
      · rw [readable] at opened
        cases opened.1
      · rw [locked] at opened
        cases opened.2

end

/-- A translation leaves nothing behind exactly when it has no file to leave behind. -/
theorem leavesNothingBehind_iff {answers : List GetoptAnswer} {operands : List String} {m : Machine}
    (usage version : Output) (accepted : Accepted render parser answers operands m o parsed) :
    LeavesNothingBehind render stack o parsed m
        (main render parser stack usage version answers operands m).1
        (main render parser stack usage version answers operands m).2 ↔
      Harmless stack o parsed m := by
  cases named : o.outputFilename with
  | none => exact leavesNothingBehind_stdout accepted named
  | some name =>
      cases opened : opens m o name with
      | false => exact leavesNothingBehind_refused accepted named opened
      | true => exact leavesNothingBehind_opened accepted named opened

/-! ## A guard that cannot be translated -/

/-- The text of a write of which no part is an expression or a type. -/
def plainText : Output → String
  | .line l => Tchecker.render l ++ "\n"
  | .comment args => "# " ++ String.join (args.map fun
      | .text text => text
      | .int value => toString value
      | _ => "") ++ "\n"
  | .blank => "\n"
  | .message _ args => String.join (args.map fun
      | .text text => text
      | .int value => toString value
      | _ => "")

def guardText (guard : String) : String :=
  "process P() \x7b state A; init A; trans A -> A \x7b guard " ++ guard ++ "; \x7d; \x7d system P;"

/-- The model with one process `P` and one edge. -/
def guardedModel (guard : Expr) : Parsed where
  symbols s := if s = 0 then ⟨"t(0)", .prim .clock, false, some ⟨none⟩⟩
    else if s = 1 then ⟨"P", .prim .unknown, false, none⟩
    else ⟨"A", .prim .location, true, none⟩
  system := ⟨⟨[0], [], []⟩, [{
    uid := 1, parameters := [], mapping := ∅, unbound := 0
    templ := { vars := [], iodecl := [], functions := [], init := 2, states := [⟨2, none⟩], edges := [
      { actname := "", src := some 2, dst := some 2, select := [], guard := guard, sync := none
        assign := .constant 1 (.prim .int) }] } }]⟩
  warnings := []
  errors := []

/-- `(1 & 1) == 1`. -/
def bitGuard : Expr :=
  .binary .eq (.binary .bitAnd (.constant 1 (.prim .int)) (.constant 1 (.prim .int)) (.prim .int))
    (.constant 1 (.prim .int)) (.prim .bool)

def commandOptions : Options :=
  { Options.initial with inputFilename := some "model.xta", outputFilename := some "model.tck" }

/-- A directory with the model only. -/
def modelMachine (text : String) : Machine :=
  ⟨(∅ : Std.TreeMap String File).insert "model.xta" ⟨text, true, true, 0⟩, fun _ => true, "", "", none⟩

theorem accepted_guardedModel (guard : Expr) (text : String) :
    Accepted plainText (fun _ _ _ => guardedModel guard) [] ["model.xta", "model.tck"]
      (modelMachine text) commandOptions (guardedModel guard) := by
  constructor
  · rfl
  · exact ⟨rfl, rfl⟩
  · rfl

/-- The run on a model whose guard is `guard`. -/
def guardedRun (guard : Expr) (text : String) : Exit × Machine :=
  main plainText (fun _ _ _ => guardedModel guard) 5 .blank .blank [] ["model.xta", "model.tck"]
    (modelMachine text)

/-- A guard that is always true is translated. -/
theorem leavesNothingBehind_plain :
    LeavesNothingBehind plainText 5 commandOptions (guardedModel (.constant 1 (.prim .bool)))
      (modelMachine (guardText "1")) (guardedRun (.constant 1 (.prim .bool)) (guardText "1")).1
      (guardedRun (.constant 1 (.prim .bool)) (guardText "1")).2 := by
  refine (leavesNothingBehind_iff .blank .blank (accepted_guardedModel _ _)).mpr ⟨?_, ?_, ?_⟩
  · rintro ⟨cls, args, st, run⟩
    cases run
  · rintro ⟨cls, args, st, run⟩
    cases run
  · intro name file named present
    cases named
    cases present

/-- The operator `&` is not supported; the output file stays, with the first
lines of the model. -/
theorem bitGuard_leaves_output :
    ¬ LeavesNothingBehind plainText 5 commandOptions (guardedModel bitGuard)
      (modelMachine (guardText "(1 & 1) == 1")) (guardedRun bitGuard (guardText "(1 & 1) == 1")).1
      (guardedRun bitGuard (guardText "(1 & 1) == 1")).2 := by
  intro leaves
  have opened : opens (modelMachine (guardText "(1 & 1) == 1")) commandOptions "model.tck" = true := rfl
  have raises : Raises 5 commandOptions (guardedModel bitGuard) := ⟨_, _, _, rfl⟩
  obtain ⟨exit, after, run, _, _, file, written, _⟩ :=
    main_opened (accepted_guardedModel bitGuard (guardText "(1 & 1) == 1")) rfl opened
  have removed := (leaves.failure (by
    intro name named
    cases named
    exact opened) raises).2 "model.tck" rfl
  rw [show guardedRun bitGuard (guardText "(1 & 1) == 1") = (exit, after) from run] at removed
  rw [written] at removed
  cases removed

end Utot
