import Utot.Format.File
import Utot.Program.Failures
import Utot.Run.Growth
import Utot.Run.Verbosity

/-!
# Verbose flags

Runs of one command line with more or fewer verbose flags.  The model that
arrives in an output file is the same; on the standard output it arrives between
the messages.
-/

namespace Utot

open Utap Library

/-! ## Options -/

def isVerboseFlag : GetoptAnswer → Bool
  | .verbose => true
  | _ => false

/-- The answers without verbose flags. -/
def plainAnswers (answers : List GetoptAnswer) : List GetoptAnswer :=
  answers.filter fun answer => !isVerboseFlag answer

/-- The same options at another level of verbosity. -/
def Options.atLevel (o : Options) (level : Nat) : Options := { o with verboseLevel := level }

theorem parseOption_atLevel {answer : GetoptAnswer} (plain : isVerboseFlag answer = false) (o : Options)
    (level : Nat) : parseOption (o.atLevel level) answer =
      (parseOption o answer).map fun o : Options => o.atLevel level := by
  cases answer with
  | verbose => cases plain
  | _ => rfl

/-- Every verbose flag raises the level, and does nothing else. -/
theorem foldlM_atLevel (answers : List GetoptAnswer) (o : Options) (level : Nat) :
    answers.foldlM parseOption (o.atLevel level) =
      ((plainAnswers answers).foldlM parseOption o).map fun o : Options =>
        o.atLevel (level + answers.countP isVerboseFlag) := by
  induction answers generalizing o level with
  | nil => rfl
  | cons answer rest ih =>
      cases flag : isVerboseFlag answer with
      | true =>
          cases answer with
          | verbose =>
              have more : level + 1 + rest.countP isVerboseFlag =
                  level + (GetoptAnswer.verbose :: rest).countP isVerboseFlag := by
                rw [List.countP_cons_of_pos flag]
                omega
              rw [← more]
              exact ih o (level + 1)
          | _ => cases flag
      | false =>
          rw [List.countP_cons_of_neg (by rw [flag]; exact Bool.false_ne_true)]
          have kept : plainAnswers (answer :: rest) = answer :: plainAnswers rest :=
            List.filter_cons_of_pos (by rw [flag]; rfl)
          rw [kept, List.foldlM_cons, List.foldlM_cons, parseOption_atLevel flag]
          cases parseOption o answer with
          | error fault => rfl
          | ok o' => exact ih o' level

theorem sParseOptions_atLevel {answers first : List GetoptAnswer} {operands : List String} {o : Options}
    (same : plainAnswers first = plainAnswers answers) (parsed : sParseOptions answers operands = .ok o) :
    sParseOptions first operands = .ok (o.atLevel (first.countP isVerboseFlag)) := by
  have levels (answers : List GetoptAnswer) : answers.foldlM parseOption Options.initial =
      ((plainAnswers answers).foldlM parseOption Options.initial).map fun o : Options =>
        o.atLevel (answers.countP isVerboseFlag) := by
    have all := foldlM_atLevel answers Options.initial 0
    rwa [Nat.zero_add] at all
  unfold sParseOptions at parsed ⊢
  rw [levels] at parsed ⊢
  rw [same]
  cases given : (plainAnswers answers).foldlM parseOption Options.initial with
  | error fault =>
      rw [given] at parsed
      cases parsed
  | ok o' =>
      rw [given] at parsed
      change (if 2 < operands.length then _ else _) = _ at parsed
      change (if 2 < operands.length then _ else _) = _
      by_cases many : 2 < operands.length
      · rw [if_pos many] at parsed
        cases parsed
      · rw [if_neg many] at parsed ⊢
        cases parsed
        rfl

/-! ## Reading the input -/

/-- The machines differ on the standard output at most. -/
structure SameInput (m m' : Machine) : Prop where
  files : m.files = m'.files
  creatable : m.creatable = m'.creatable
  stdin : m.stdin = m'.stdin
  outputFilename : m.outputFilename = m'.outputFilename

theorem sameInput_equivalence : Equivalence SameInput where
  refl _ := ⟨rfl, rfl, rfl, rfl⟩
  symm same := ⟨same.files.symm, same.creatable.symm, same.stdin.symm, same.outputFilename.symm⟩
  trans first second := ⟨first.files.trans second.files, first.creatable.trans second.creatable,
    first.stdin.trans second.stdin, first.outputFilename.trans second.outputFilename⟩

section

variable {render : Output → String} {parser : Parser} {o : Options} {level : Nat}

/-- A message of the program, whether it is written or not. -/
theorem say_mute (level : Nat) (args : List Arg) :
    Alike SameInput (say render o level args) (pure ()) := by
  unfold say
  split
  · exact fun m m' same => ⟨rfl, same.files, same.creatable, same.stdin, same.outputFilename⟩
  · exact Alike.ret _

theorem say_atLevel (level' : Nat) (args : List Arg) :
    Alike SameInput (say render (o.atLevel level) level' args) (say render o level' args) :=
  Alike.both sameInput_equivalence (say_mute _ _) (say_mute _ _)

theorem printWarnings_mute (parsed : Parsed) :
    Alike SameInput (printWarnings render o parsed) (pure ()) := by
  unfold printWarnings
  split
  · exact Alike.forM_returns fun e => say_mute _ _
  · exact Alike.ret _

theorem enforce_atLevel {α : Type} [DecidableEq α] (what : String) (name : α → String)
    (extpos : Option String) (absent enforced found : α) :
    Alike SameInput (enforce render (o.atLevel level) what name extpos absent enforced found)
      (enforce render o what name extpos absent enforced found) :=
  Alike.branch (fun _ => Alike.ret _) fun _ => Alike.branch (fun _ => Alike.ret _) fun _ =>
    Alike.bind (say_atLevel _ _) fun _ => Alike.ret _

theorem computeInputLanguage_atLevel :
    Alike SameInput (sComputeInputLanguage render (o.atLevel level)) (sComputeInputLanguage render o) := by
  unfold sComputeInputLanguage
  rw [show (o.atLevel level).inputFilename = o.inputFilename from rfl]
  cases o.inputFilename with
  | none => exact Alike.ret _
  | some filename =>
      refine Alike.bind ?_ fun found => Alike.bind (enforce_atLevel _ _ _ _ _ _) fun _ =>
        Alike.bind (enforce_atLevel _ _ _ _ _ _) fun _ => Alike.ret _
      cases extension? filename with
      | none => exact Alike.ret _
      | some ext =>
          unfold byExtension
          dsimp only
          cases languageOf ext with
          | none => exact Alike.bind (say_atLevel _ _) fun _ => Alike.ret _
          | some found => exact Alike.ret _

theorem readInputfile_atLevel :
    Alike SameInput (sReadInputfile render (o.atLevel level)) (sReadInputfile render o) := by
  refine Alike.read fun m m' same => ?_
  rw [same.files, same.stdin]
  rw [show (o.atLevel level).inputFilename = o.inputFilename from rfl]
  cases o.inputFilename with
  | none => exact Alike.bind (say_atLevel _ _) fun _ => Alike.ret _
  | some filename =>
      dsimp only
      cases m'.files[filename]? with
      | none => exact Alike.lift _
      | some file =>
          exact Alike.branch (fun _ => Alike.bind (say_atLevel _ _) fun _ => Alike.ret _)
            fun _ => Alike.lift _

/-- A command line accepts the same input at every level. -/
theorem loadModel_atLevel :
    Alike SameInput (loadModel render parser (o.atLevel level)) (loadModel render parser o) := by
  refine Alike.bind computeInputLanguage_atLevel fun found =>
    Alike.branch (fun _ => Alike.lift _) fun _ => ?_
  refine Alike.bind ?_ fun fmt => Alike.bind readInputfile_atLevel fun input => ?_
  · exact Alike.branch (fun _ => Alike.bind (say_atLevel _ _) fun _ => Alike.ret _) fun _ => Alike.ret _
  · refine Alike.bind (say_atLevel _ _) fun _ => Alike.bind ?_ fun _ =>
      Alike.branch (fun _ => Alike.lift _) fun _ => Alike.bind (say_atLevel _ _) fun _ => Alike.ret _
    exact Alike.both sameInput_equivalence (printWarnings_mute _) (printWarnings_mute _)

/-- The same command line with other verbose flags is accepted too. -/
theorem Accepted.atLevel {answers first : List GetoptAnswer} {operands : List String} {m : Machine}
    {parsed : Parsed} (accepted : Accepted render parser answers operands m o parsed)
    (same : plainAnswers first = plainAnswers answers) :
    Accepted render parser first operands m (o.atLevel (first.countP isVerboseFlag)) parsed where
  options := sParseOptions_atLevel same accepted.options
  translating := accepted.translating
  loaded := by
    have alike := @loadModel_atLevel render parser o (first.countP isVerboseFlag)
      { m with outputFilename := o.outputFilename } _ (sameInput_equivalence.refl _)
    exact alike.1.trans accepted.loaded

end

/-! ## What the outputter writes -/

section

variable (env : Env) (sysname : String) (tas : TimedAutomataSystem)

theorem translationStart_same (env' : Env) :
    SameWritten (translationStart env) (translationStart env') :=
  (writesAlike_msg env.verboseLevel env'.verboseLevel vlProgress [.text "starting translation.\n"]
    _ _ (sameWritten_equivalence.refl .initial)).2

/-- Apart from messages `translate_model` writes what its `try` block writes. -/
theorem written_translateModel :
    written (exec (translateModel env sysname tas) .initial).2.trace =
      written (exec (translateSystem env sysname tas) (translationStart env)).2.trace := by
  rcases @translateModel_state env sysname tas with same | same
  · rw [same]
  · rw [same]
    have silent := writesAlike_msg env.verboseLevel 0 vlProgress [.text "translation terminated.\n"]
      _ _ (sameWritten_equivalence.refl (exec (translateSystem env sysname tas) (translationStart env)).2)
    exact silent.2.trace

/-- At another level `translate_model` writes the same. -/
theorem translateModel_atLevel (level : Nat) :
    written (exec (translateModel (env.atLevel level) sysname tas) .initial).2.trace =
      written (exec (translateModel env sysname tas) .initial).2.trace := by
  have run := @translateSystem_atLevel env level sysname tas _ _
    (translationStart_same (env.atLevel level) env)
  rw [written_translateModel, written_translateModel]
  exact run.2.trace

/-- Without verbose flags the first write is the name of the system. -/
theorem quiet_translateModel : [.line (.system sysname)] <+:
    (exec (translateModel (env.atLevel 0) sysname tas) .initial).2.trace := by
  have first := system_first (env.atLevel 0) sysname tas .initial
  rcases @translateModel_state (env.atLevel 0) sysname tas with same | same
  all_goals
    rw [same]
    exact first

end

/-! ## Text -/

/-- The text of a write; messages of level 2 are indented by one. -/
def outputText (d : Dumps) : Output → String
  | .line l => Tchecker.render l ++ "\n"
  | .comment args => "# " ++ String.ofList (args.flatMap (argText d)) ++ "\n"
  | .blank => "\n"
  | .message level args => String.ofList (List.replicate (level - 1) ' ' ++ args.flatMap (argText d))

/-- The lines of a text that are no comments. -/
def uncommented (text : List Char) : List (List Char) :=
  (text.splitOn '\n').filter fun line => line.head? ≠ some '#'

/-- What a run has added to its output. -/
def emitted (outputFilename : Option String) (before after : Machine) : List Char :=
  match outputFilename with
  | some name => (after.files[name]?.map File.content).getD "" |>.toList
  | none => after.stdout.toList.drop before.stdout.toList.length

section

variable {d : Dumps}

theorem uncommented_append (first rest : List Char) :
    uncommented (first ++ '\n' :: rest) = uncommented first ++ uncommented rest := by
  unfold uncommented
  rw [List.splitOn_append_cons_self, List.filter_append]

/-- The first line of a text that starts with something else than `#`. -/
theorem uncommented_cons {c : Char} (inLine : c ≠ '\n') (noComment : c ≠ '#') (text : List Char) :
    ∃ line rest, uncommented (c :: text) = (c :: line) :: rest := by
  unfold uncommented
  rw [List.splitOn_cons_eq_if_modifyHead, if_neg (by simpa using inLine)]
  cases split : text.splitOn '\n' with
  | nil => exact absurd split (List.splitOn_ne_nil _ _)
  | cons line rest =>
      refine ⟨line, rest.filter fun line => line.head? ≠ some '#', ?_⟩
      rw [List.modifyHead_cons, List.filter_cons_of_pos]
      simpa using noComment

theorem splitOn_append_left {front : List Char} (inLine : '\n' ∉ front) (text : List Char) :
    (front ++ text).splitOn '\n' = (text.splitOn '\n').modifyHead (front ++ ·) := by
  induction front with
  | nil =>
      rw [List.nil_append]
      cases text.splitOn '\n' with
      | nil => rfl
      | cons line rest => rfl
  | cons c front ih =>
      rw [List.mem_cons, not_or] at inLine
      obtain ⟨first, later⟩ := inLine
      rw [List.cons_append, List.splitOn_cons_eq_if_modifyHead, if_neg (by simpa using Ne.symm first),
        ih later, List.modifyHead_modifyHead]
      rfl

/-- Of a comment only the lines behind the first one can be no comments. -/
theorem uncommented_comment {front : List Char} (inLine : '\n' ∉ front) (text : List Char) :
    uncommented ('#' :: (front ++ text)) =
      (text.splitOn '\n').tail.filter fun line => line.head? ≠ some '#' := by
  have sign : '\n' ∉ '#' :: front := by
    rw [List.mem_cons, not_or]
    exact ⟨by decide, inLine⟩
  unfold uncommented
  rw [← List.cons_append, splitOn_append_left sign]
  cases split : text.splitOn '\n' with
  | nil => rfl
  | cons line rest =>
      rw [List.modifyHead_cons, List.filter_cons_of_neg (by simp)]
      rfl

theorem toList_textOf_cons (o : Output) (trace : List Output) :
    (textOf (outputText d) (o :: trace)).toList =
      (outputText d o).toList ++ (textOf (outputText d) trace).toList := by
  unfold textOf
  rw [List.map_cons, String.join_cons, String.toList_append]

/-- What the outputter writes consists of whole lines. -/
theorem toList_outputText {o : Output} (noMessage : isMessage o = false) :
    ∃ line, physicalLine d o = some line ∧ (outputText d o).toList = line ++ ['\n'] := by
  cases o with
  | line l => exact ⟨_, rfl, String.toList_append⟩
  | comment args =>
      refine ⟨_, rfl, ?_⟩
      simp [outputText]
  | blank => exact ⟨[], rfl, by simp [outputText]⟩
  | message level args => cases noMessage

/-- The lines of the text of a list of writes are those of the writes. -/
theorem uncommented_textOf {trace : List Output} (noMessage : ∀ o ∈ trace, isMessage o = false)
    (rest : List Char) : uncommented ((textOf (outputText d) trace).toList ++ rest) =
      (trace.filterMap (physicalLine d)).flatMap uncommented ++ uncommented rest := by
  induction trace with
  | nil => rfl
  | cons o trace ih =>
      obtain ⟨line, written, text⟩ := @toList_outputText d o (noMessage o List.mem_cons_self)
      rw [toList_textOf_cons, text, List.filterMap_cons, written, List.append_assoc,
        List.append_assoc, List.singleton_append, uncommented_append,
        ih fun o' inside => noMessage o' (List.mem_cons_of_mem _ inside)]
      rw [List.flatMap_cons, List.append_assoc]

/-- The lines of the header that are no comments: those of a file name behind its first line. -/
theorem uncommented_header (o : Options) (level : Nat) :
    ((header (o.atLevel level)).filterMap (physicalLine d)).flatMap uncommented =
      if 0 < level then
        ((o.inputFilename.getD "stdin").toList.splitOn '\n').tail.filter fun line => line.head? ≠ some '#'
      else [] := by
  have empty : uncommented ['#', ' '] = [] := by decide
  have generated : uncommented ('#' :: ' ' :: ("This file has been generated automatically with ".toList ++
      "uppaal-to-tchecker".toList)) = [] := by decide
  have source := @uncommented_comment (' ' :: "from file: ".toList) (by decide)
    (o.inputFilename.getD "stdin").toList
  change (((Output.comment [] :: [_]) ++ (if 0 < level then [_] else []) ++ [Output.comment []]).filterMap
    (physicalLine d)).flatMap uncommented = _
  split
  · simp only [List.cons_append, List.nil_append, List.filterMap_cons, List.filterMap_nil,
      physicalLine, List.flatMap_cons, List.flatMap_nil, argText, List.append_nil]
    rw [empty, generated, show (o.atLevel level).inputFilename = o.inputFilename from rfl]
    simpa using source
  · simp only [List.cons_append, List.nil_append, List.filterMap_cons, List.filterMap_nil,
      physicalLine, List.flatMap_cons, List.flatMap_nil, argText, List.append_nil]
    rw [empty, generated]
    rfl

end

/-! ## Two runs -/

/-- The command line gives the same output, comments apart, whatever the number of
its verbose flags. -/
def VerbosityInvisible (d : Dumps) (parser : Parser) (stack : Nat) (usage version : Output)
    (answers : List GetoptAnswer) (operands : List String) (m : Machine) : Prop :=
  ∀ first second, plainAnswers first = plainAnswers answers →
    plainAnswers second = plainAnswers answers →
    uncommented (emitted operands[1]? m
        (main (outputText d) parser stack usage version first operands m).2) =
      uncommented (emitted operands[1]? m
        (main (outputText d) parser stack usage version second operands m).2)

/-- The comment with the name of the input file has no lines that are no comments. -/
def OneComment (name : String) : Prop :=
  ∀ line ∈ (name.toList.splitOn '\n').tail, line.head? = some '#'

section

/-- The writes of a translation do not depend on the level. -/
theorem written_translationTrace (stack : Nat) (o : Options) (parsed : Parsed) (level : Nat) :
    written (translationTrace stack (o.atLevel level) parsed) =
      written (translationTrace stack o parsed) :=
  translateModel_atLevel (environment stack o parsed) (sGetSystemId o) parsed.system level

variable {d : Dumps} {parser : Parser} {stack : Nat} {usage version : Output}
  {answers first : List GetoptAnswer} {operands : List String} {m : Machine} {o : Options}
  {parsed : Parsed} (accepted : Accepted (outputText d) parser answers operands m o parsed)
  (same : plainAnswers first = plainAnswers answers)

include accepted same

/-- What arrives in an output file depends on the level in the header only. -/
theorem emitted_file {name : String} (named : o.outputFilename = some name)
    (opened : opens m o name = true) :
    uncommented (emitted (some name) m
        (main (outputText d) parser stack usage version first operands m).2) =
      ((header (o.atLevel (first.countP isVerboseFlag))).filterMap (physicalLine d)).flatMap uncommented ++
        ((written (translationTrace stack o parsed)).filterMap (physicalLine d)).flatMap uncommented ++
          [[]] := by
  obtain ⟨exit, after, run, _, _, file, present, _, content⟩ :=
    @main_opened (outputText d) parser stack _ parsed first operands m usage version
      (accepted.atLevel same) name named opened
  have header' : ∀ out ∈ header (o.atLevel (first.countP isVerboseFlag)), isMessage out = false := by
    intro out inside
    rw [← header_messages] at inside
    simpa using (List.mem_filter.mp inside).2
  have trace' : ∀ out ∈ written (translationTrace stack o parsed), isMessage out = false := by
    intro out inside
    simpa using (List.mem_filter.mp inside).2
  have whole := @uncommented_textOf d (header (o.atLevel (first.countP isVerboseFlag)) ++
    written (translationTrace stack o parsed)) (fun out inside =>
      (List.mem_append.mp inside).elim (header' out) (trace' out)) []
  rw [run]
  change uncommented (((after.files[name]?.map File.content).getD "").toList) = _
  rw [present]
  change uncommented file.content.toList = _
  rw [content]
  change uncommented (textOf (outputText d) (_ ++ written (translationTrace stack
    (o.atLevel (first.countP isVerboseFlag)) parsed))).toList = _
  rw [written_translationTrace, ← List.append_nil (String.toList _), whole, List.filterMap_append,
    List.flatMap_append]
  rfl

end

/-! ## The standard output -/

/-- What messages up to the opening of the output file begin with. -/
def messageStarts : List Char := ['w', 'r', 'p', 't']

section

variable {d : Dumps} {parser : Parser} {o : Options}

/-- Messages may have been written, if there are verbose flags. -/
def saidFrame (o : Options) : Frame Machine where
  rel m m' := ∃ text, m'.stdout.toList = m.stdout.toList ++ text ∧
    (∀ c ∈ text.head?, c ∈ messageStarts) ∧ (o.verboseLevel = 0 → text = [])
  refl m := ⟨[], (List.append_nil _).symm, fun _ inside => (by cases inside), fun _ => rfl⟩
  trans := by
    rintro m m' m'' ⟨first, before, firstStart, firstQuiet⟩ ⟨second, after, secondStart, secondQuiet⟩
    refine ⟨first ++ second, ?_, ?_, ?_⟩
    · rw [after, before, List.append_assoc]
    · cases first with
      | nil => exact secondStart
      | cons c rest => exact firstStart
    · intro quiet
      rw [firstQuiet quiet, secondQuiet quiet]
      rfl

/-- A message that is written. -/
theorem deliver_message {level : Nat} (low : level ≤ vlProgress) {text : String}
    (listed : text ∈ loadingTexts) (args : List Arg) (m : Machine) :
    ∃ c rest, (m.deliver (outputText d) .stdout [.message level (.text text :: args)]).stdout.toList =
      m.stdout.toList ++ c :: rest ∧ c ∈ messageStarts := by
  have start : ∀ text ∈ loadingTexts, ∃ c rest, text.toList = c :: rest ∧ c ∈ messageStarts := by
    intro text listed
    simp only [loadingTexts, List.mem_cons, List.not_mem_nil, or_false] at listed
    rcases listed with rfl | rfl | rfl | rfl
    · exact ⟨'w', _, rfl, by decide⟩
    · exact ⟨'r', _, rfl, by decide⟩
    · exact ⟨'p', _, rfl, by decide⟩
    · exact ⟨'t', _, rfl, by decide⟩
  obtain ⟨c, rest, begins, member⟩ := start text listed
  have unindented : level - 1 = 0 := by
    unfold vlProgress at low
    omega
  refine ⟨c, rest ++ args.flatMap (argText d), ?_, member⟩
  change (m.stdout ++ textOf (outputText d) [.message level (.text text :: args)]).toList = _
  rw [String.toList_append, toList_textOf_cons]
  simp [outputText, unindented, argText, begins, textOf]

theorem keepsSaid_say {level : Nat} (low : level ≤ vlProgress) {text : String}
    (listed : text ∈ loadingTexts) (args : List Arg) :
    Keeps (saidFrame o) (say (outputText d) o level (.text text :: args)) := by
  unfold say
  split
  · rename_i verbose
    intro m
    obtain ⟨c, rest, written, member⟩ := @deliver_message d level low text listed args m
    refine ⟨c :: rest, written, ?_, fun quiet => ?_⟩
    · rintro c ⟨⟩
      exact member
    · omega
  · exact Keeps.ret _

theorem keepsSaid_loadModel : Keeps (saidFrame o) (loadModel (outputText d) parser o) :=
  keeps_loadModel fun _ low _ listed args => keepsSaid_say low listed args

/-- Without verbose flags nothing is said. -/
theorem quiet_afterLoading (m : Machine) :
    (afterLoading (outputText d) parser (o.atLevel 0) m).stdout = m.stdout := by
  obtain ⟨text, written, _, quiet⟩ := @keepsSaid_loadModel d parser (o.atLevel 0)
    { m with outputFilename := o.outputFilename }
  rw [quiet rfl, List.append_nil] at written
  exact String.toList_inj.mp written

/-- Something has been said. -/
def Spoken (m m' : Machine) : Prop :=
  ∃ c rest, m'.stdout.toList = m.stdout.toList ++ c :: rest ∧ c ∈ messageStarts

theorem loadModel_speaks (verbose : vlProgress < o.verboseLevel) (m : Machine) :
    Spec ((saidFrame o).rel m) (loadModel (outputText d) parser o) (fun _ => Spoken m) fun _ => True := by
  have kept {α : Type} {k : Io α} (keeps : Keeps (saidFrame o) k) :
      Spec ((saidFrame o).rel m) k (fun _ => (saidFrame o).rel m) fun _ => True :=
    (keeps.spec fun _ _ later before => (saidFrame o).trans before later).weaken (fun _ pre => pre)
      (fun _ _ post => post) fun _ _ => trivial
  have failed {fault : Fault} : Spec ((saidFrame o).rel m) (fromExcept (.error fault) : Io Parsed)
      (fun _ => Spoken m) fun _ => True :=
    Spec.lift (fun _ _ _ returned => by cases returned) fun _ _ _ _ => trivial
  have spoken : ∀ level ≤ vlProgress, ∀ text ∈ loadingTexts, ∀ args,
      Keeps (saidFrame o) (say (outputText d) o level (.text text :: args)) :=
    fun _ low _ listed args => keepsSaid_say low listed args
  refine Spec.bind (kept (keeps_computeInputLanguage spoken)) fun found => ?_
  dsimp only
  split
  · exact failed
  refine Spec.bind (kept (keeps_plainByDefault spoken _)) fun fmt => ?_
  refine Spec.bind (kept (keeps_readInputfile spoken)) fun input => ?_
  refine Spec.bind (kept (spoken _ (by decide) _ (by decide) _)) fun _ => ?_
  refine Spec.bind (kept (keeps_printWarnings spoken _)) fun _ => ?_
  split
  · exact failed
  refine Spec.bind (Q := fun _ => Spoken m) ?_ fun _ => Spec.ret _ fun _ post => post
  unfold say
  rw [if_pos verbose]
  refine Spec.update ?_
  rintro m' ⟨text, before, starts, _⟩
  obtain ⟨c, rest, written, member⟩ := @deliver_message d vlProgress (by decide)
    "translating model into tchecker file format.\n" (by decide) [] m'
  rw [before, List.append_assoc] at written
  cases text with
  | nil => exact ⟨c, rest, written, member⟩
  | cons c' text => exact ⟨c', text ++ c :: rest, written, starts c' rfl⟩

/-- With two verbose flags something is said before the model is written. -/
theorem verbose_afterLoading {parsed : Parsed} (verbose : vlProgress < o.verboseLevel) {m : Machine}
    (loaded : (exec (loadModel (outputText d) parser o)
      { m with outputFilename := o.outputFilename }).1 = .ok parsed) :
    Spoken m (afterLoading (outputText d) parser o m) :=
  (loadModel_speaks verbose m).returned
    (s := { m with outputFilename := o.outputFilename })
    ⟨[], (List.append_nil _).symm, fun _ inside => (by cases inside), fun _ => rfl⟩ (Prod.ext loaded rfl)

end

/-! ## The claim of the command line -/

theorem plainAnswers_idem (answers : List GetoptAnswer) :
    plainAnswers (plainAnswers answers) = plainAnswers answers := by
  unfold plainAnswers
  rw [List.filter_filter]
  simp

/-- The command line with a number of verbose flags. -/
def withFlags (answers : List GetoptAnswer) (count : Nat) : List GetoptAnswer :=
  plainAnswers answers ++ List.replicate count .verbose

theorem plainAnswers_withFlags (answers : List GetoptAnswer) (count : Nat) :
    plainAnswers (withFlags answers count) = plainAnswers answers := by
  have flags : plainAnswers (List.replicate count .verbose) = [] := by
    unfold plainAnswers
    rw [List.filter_replicate]
    rfl
  have whole : plainAnswers (withFlags answers count) =
      plainAnswers (plainAnswers answers) ++ plainAnswers (List.replicate count .verbose) :=
    List.filter_append _ _
  rw [whole, flags, plainAnswers_idem, List.append_nil]

theorem countP_withFlags (answers : List GetoptAnswer) (count : Nat) :
    (withFlags answers count).countP isVerboseFlag = count := by
  have plain : (plainAnswers answers).countP isVerboseFlag = 0 := by
    rw [List.countP_eq_zero]
    intro answer inside
    simpa using (List.mem_filter.mp inside).2
  have flags : (List.replicate count GetoptAnswer.verbose).countP isVerboseFlag = count := by
    rw [List.countP_replicate]
    rfl
  unfold withFlags
  rw [List.countP_append, plain, flags, Nat.zero_add]

section

variable {d : Dumps} {parser : Parser} {stack : Nat} {usage version : Output}
  {answers : List GetoptAnswer} {operands : List String} {m : Machine} {o : Options}
  {parsed : Parsed} (accepted : Accepted (outputText d) parser answers operands m o parsed)

include accepted

theorem Accepted.outputFilename : operands[1]? = o.outputFilename := by
  have options := accepted.options
  unfold sParseOptions at options
  cases given : answers.foldlM parseOption Options.initial with
  | error fault =>
      rw [given] at options
      cases options
  | ok o' =>
      rw [given] at options
      change (if 2 < operands.length then _ else _) = _ at options
      split at options
      · cases options
      · cases options
        rfl

/-- Without verbose flags the standard output begins with the model. -/
theorem emitted_quiet (unnamed : o.outputFilename = none) : ∃ line rest,
    uncommented (emitted none m (main (outputText d) parser stack usage version (withFlags answers 0)
      operands m).2) = ('s' :: line) :: rest := by
  have quiet := accepted.atLevel (plainAnswers_withFlags answers 0)
  rw [countP_withFlags] at quiet
  obtain ⟨exit, after, run, _, _, written⟩ :=
    @main_stdout (outputText d) parser stack _ parsed _ operands m usage version quiet unnamed
  obtain ⟨later, trace⟩ := quiet_translateModel (environment stack o parsed) (sGetSystemId o)
    parsed.system
  have silent : ∀ out ∈ header (o.atLevel 0), isMessage out = false := by
    intro out inside
    rw [← header_messages] at inside
    simpa using (List.mem_filter.mp inside).2
  have headed := @uncommented_textOf d (header (o.atLevel 0)) silent
    (textOf (outputText d) (translationTrace stack (o.atLevel 0) parsed)).toList
  rw [uncommented_header, if_neg (Nat.lt_irrefl 0), List.nil_append] at headed
  have first : translationTrace stack (o.atLevel 0) parsed =
      .line (.system (sGetSystemId o)) :: later := trace.symm
  rw [run]
  change ∃ line rest, uncommented (after.stdout.toList.drop m.stdout.toList.length) = _
  rw [written, quiet_afterLoading, String.toList_append, List.drop_left, textOf_append,
    String.toList_append, headed, first, toList_textOf_cons]
  simpa [outputText, Tchecker.render] using uncommented_cons (by decide) (by decide) _

/-- With two verbose flags it begins with a message. -/
theorem emitted_verbose (unnamed : o.outputFilename = none) : ∃ c line rest, c ∈ messageStarts ∧
    uncommented (emitted none m (main (outputText d) parser stack usage version (withFlags answers 2)
      operands m).2) = (c :: line) :: rest := by
  have verbose := accepted.atLevel (plainAnswers_withFlags answers 2)
  rw [countP_withFlags] at verbose
  obtain ⟨exit, after, run, _, _, written⟩ :=
    @main_stdout (outputText d) parser stack _ parsed _ operands m usage version verbose unnamed
  obtain ⟨c, text, said, member⟩ := verbose_afterLoading (o := o.atLevel 2) Nat.one_lt_two verbose.loaded
  have inLine : ∀ c ∈ messageStarts, c ≠ '\n' ∧ c ≠ '#' := by
    intro c listed
    simp only [messageStarts, List.mem_cons, List.not_mem_nil, or_false] at listed
    rcases listed with rfl | rfl | rfl | rfl
    all_goals decide
  obtain ⟨line, rest, lines⟩ := uncommented_cons (inLine c member).1 (inLine c member).2
    (text ++ (textOf (outputText d)
      (header (o.atLevel 2) ++ translationTrace stack (o.atLevel 2) parsed)).toList)
  refine ⟨c, line, rest, member, ?_⟩
  rw [run]
  change uncommented (after.stdout.toList.drop m.stdout.toList.length) = _
  rw [written, String.toList_append, said, List.append_assoc, List.drop_left]
  exact lines

/-- Messages share the standard output with the model. -/
theorem visible_on_stdout (unnamed : o.outputFilename = none) :
    ¬ VerbosityInvisible d parser stack usage version answers operands m := by
  intro invisible
  have same := invisible _ _ (plainAnswers_withFlags answers 0) (plainAnswers_withFlags answers 2)
  rw [accepted.outputFilename, unnamed] at same
  obtain ⟨line, rest, quiet⟩ := @emitted_quiet d parser stack usage version _ _ _ _ _ accepted unnamed
  obtain ⟨c, line', rest', member, verbose⟩ :=
    @emitted_verbose d parser stack usage version _ _ _ _ _ accepted unnamed
  rw [quiet, verbose] at same
  cases same
  exact absurd member (by decide)

/-- In an output file the header alone depends on the level. -/
theorem invisible_in_file_iff {name : String} (named : o.outputFilename = some name)
    (opened : opens m o name = true) :
    VerbosityInvisible d parser stack usage version answers operands m ↔
      OneComment (o.inputFilename.getD "stdin") := by
  have file (first : List GetoptAnswer) (same : plainAnswers first = plainAnswers answers) :=
    @emitted_file d parser stack usage version answers first operands m o parsed accepted same name
      named opened
  have onlyComment : OneComment (o.inputFilename.getD "stdin") ↔
      (((o.inputFilename.getD "stdin").toList.splitOn '\n').tail.filter
        fun line => line.head? ≠ some '#') = [] := by
    rw [List.filter_eq_nil_iff]
    simp [OneComment]
  unfold VerbosityInvisible
  rw [accepted.outputFilename, named, onlyComment]
  constructor
  · intro invisible
    have same := invisible _ _ (plainAnswers_withFlags answers 1) (plainAnswers_withFlags answers 0)
    rw [file _ (plainAnswers_withFlags answers 1), file _ (plainAnswers_withFlags answers 0),
      countP_withFlags, countP_withFlags, uncommented_header, uncommented_header,
      if_pos (by exact Nat.one_pos), if_neg (Nat.lt_irrefl 0)] at same
    exact List.append_cancel_right (List.append_cancel_right same)
  · intro empty first second sameFirst sameSecond
    have none : ∀ level, ((header (o.atLevel level)).filterMap (physicalLine d)).flatMap uncommented =
        [] := by
      intro level
      rw [uncommented_header]
      split
      · exact empty
      · rfl
    rw [file first sameFirst, file second sameSecond, none, none]

/-- The number of verbose flags does not show in the output exactly when the model
goes to a file and the comment with the name of the input is one. -/
theorem output_independent_of_verbosity_iff
    (opened : ∀ name, o.outputFilename = some name → opens m o name = true) :
    VerbosityInvisible d parser stack usage version answers operands m ↔
      o.outputFilename ≠ none ∧ OneComment (o.inputFilename.getD "stdin") := by
  cases named : o.outputFilename with
  | none =>
      constructor
      · exact fun invisible => absurd invisible (visible_on_stdout accepted named)
      · rintro ⟨given, _⟩
        exact absurd rfl given
  | some name =>
      rw [invisible_in_file_iff accepted named (opened name named)]
      exact ⟨fun one => ⟨by simp, one⟩, And.right⟩

end

/-! ## A model on the standard output -/

/-- No expressions, types or symbols in comments and messages. -/
def noDumps : Dumps := ⟨fun _ => "", fun _ => "", fun _ => ""⟩

theorem accepted_plainGuard (operands : List String) (few : operands = ["model.xta"] ∨
    operands = ["model.xta", "model.tck"]) :
    Accepted (outputText noDumps) (fun _ _ _ => guardedModel (.constant 1 (.prim .bool))) [] operands
      (modelMachine (guardText "1"))
      { Options.initial with inputFilename := operands[0]?, outputFilename := operands[1]? }
      (guardedModel (.constant 1 (.prim .bool))) := by
  rcases few with rfl | rfl
  all_goals
    constructor
    · rfl
    · exact ⟨rfl, rfl⟩
    · rfl

/-- With an output file the model is the same at every level. -/
theorem output_independent_of_verbosity_file :
    VerbosityInvisible noDumps (fun _ _ _ => guardedModel (.constant 1 (.prim .bool))) 5 .blank .blank []
      ["model.xta", "model.tck"] (modelMachine (guardText "1")) := by
  refine (output_independent_of_verbosity_iff (accepted_plainGuard _ (.inr rfl)) ?_).mpr ⟨?_, ?_⟩
  · rintro name ⟨⟩
    rfl
  · rintro ⟨⟩
  · intro line inside
    cases inside

/-- Without one the messages are between its lines. -/
theorem messages_on_stdout :
    ¬ VerbosityInvisible noDumps (fun _ _ _ => guardedModel (.constant 1 (.prim .bool))) 5 .blank .blank []
      ["model.xta"] (modelMachine (guardText "1")) :=
  visible_on_stdout (accepted_plainGuard _ (.inl rfl)) rfl

end Utot
