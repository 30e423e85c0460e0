import Utot.Translate.Model

/-!
# The program

`main` of `utot.cpp` over a machine with files and standard streams.  The parser
library is a parameter, as are the answers of `getopt_long` and the text of a
write, which prints expressions with the parser library.  A write to an open
stream succeeds, and each one ends with a flush.  What goes to the standard
error stream is left out.
-/

namespace Utot

open Utap Library

/-! ## The machine -/

/-- A regular file; the stamp changes whenever it is opened for writing. -/
structure File where
  content : String
  readable : Bool
  writable : Bool
  stamp : Nat

def File.append (file : File) (text : String) : File := { file with content := file.content ++ text }

/-- Everything `main` can change. -/
structure Machine where
  files : Std.TreeMap String File
  /-- The names under which a file can be created. -/
  creatable : String → Bool
  stdin : String
  stdout : String
  /-- The variable `output_filename`. -/
  outputFilename : Option String

/-- Functions of the program. -/
abbrev Io (α : Type) : Type := Prog Fault Machine α

/-- `err`. -/
def err {α : Type} (args : List Arg) : Io α := fromExcept (errEx ⟨.exception, .exception⟩ args)

/-- Where the outputter writes to. -/
inductive Sink where
  | stdout
  | file (name : String)

/-- Whether `fopen (name, "w")` succeeds. -/
def Machine.canOpen (m : Machine) (name : String) : Bool :=
  match m.files[name]? with
  | some file => file.writable
  | none => m.creatable name

/-- The file behind a successful `fopen (name, "w")`: it is truncated or created. -/
def Machine.truncate (m : Machine) (name : String) : Machine :=
  match m.files[name]? with
  | some file =>
      { m with files := m.files.insert name { file with content := "", stamp := file.stamp + 1 } }
  | none => { m with files := m.files.insert name ⟨"", true, true, 0⟩ }

/-- `unlink`. -/
def Machine.unlink (m : Machine) (name : String) : Machine := { m with files := m.files.erase name }

/-- Text arrives at the end of a file. -/
def Machine.append (m : Machine) (name text : String) : Machine :=
  match m.files[name]? with
  | some file => { m with files := m.files.insert name (file.append text) }
  | none => m

/-- A message goes to the standard output. -/
def isMessage : Output → Bool
  | .message _ _ => true
  | _ => false

section

variable (render : Output → String)

/-- The text of a sequence of writes. -/
def textOf (outputs : List Output) : String := String.join (outputs.map render)

/-- The writes of the outputter arrive at its sink, messages at the standard output. -/
def Machine.deliver (m : Machine) (sink : Sink) (outputs : List Output) : Machine :=
  match sink with
  | .stdout => { m with stdout := m.stdout ++ textOf render outputs }
  | .file name =>
      { m.append name (textOf render (outputs.filter fun o => !isMessage o)) with
        stdout := m.stdout ++ textOf render (outputs.filter isMessage) }

/-- Writes to the outputter or to the standard output. -/
def deliver (sink : Sink) (outputs : List Output) : Io Unit := modify fun m => m.deliver render sink outputs

/-- A function of the translator, with everything it wrote before it returned or threw. -/
def onSink {α : Type} (sink : Sink) (program : Tr α) : Io α := do
  let outcome := exec program .initial
  deliver render sink outcome.2.trace
  fromExcept outcome.1

/-! ## Options -/

/-- `file_format_t`. -/
inductive FileFormat where
  | none | plain | xml
  deriving DecidableEq, Repr

/-- `input_language_t`. -/
inductive InputLanguage where
  | none | ta | xta
  deriving DecidableEq, Repr

/-- `FORMAT_STRINGS`. -/
def FileFormat.name : FileFormat → String
  | .none => "unkwown"
  | .plain => "plain"
  | .xml => "xml"

/-- `LANG_STRINGS`. -/
def InputLanguage.name : InputLanguage → String
  | .none => "unkwown"
  | .ta => "ta"
  | .xta => "xta"

/-- What one call of `getopt_long` answers. -/
inductive GetoptAnswer where
  | debug | erase | help | verbose | version | xml | ta | xta
  | sysname (optarg : String)
  | missingArgument (optopt : String)
  | unknown

/-- The variables `s_parse_options` sets. -/
structure Options where
  debug : Bool
  showHelp : Bool
  showVersion : Bool
  enforcedFormat : FileFormat
  enforcedLanguage : InputLanguage
  eraseOutput : Bool
  verboseLevel : Nat
  inputFilename : Option String
  outputFilename : Option String
  sysname : Option String

def Options.initial : Options :=
  ⟨false, false, false, .none, .none, false, 0, none, none, none⟩

/-- One round of the loop of `s_parse_options`. -/
def parseOption (o : Options) : GetoptAnswer → Res Options
  | .debug => .ok { o with debug := true }
  | .erase => .ok { o with eraseOutput := true }
  | .verbose => .ok { o with verboseLevel := o.verboseLevel + 1 }
  | .help => .ok { o with showHelp := true }
  | .ta => .ok { o with enforcedLanguage := .ta, enforcedFormat := .plain }
  | .xta => .ok { o with enforcedLanguage := .xta, enforcedFormat := .plain }
  | .xml => .ok { o with enforcedFormat := .xml, enforcedLanguage := .xta }
  | .version => .ok { o with showVersion := true }
  | .sysname optarg => .ok { o with sysname := some optarg }
  | .missingArgument optopt =>
      errEx ⟨.exception, .exception⟩ [.text "missing argument to option '", .text optopt, .text "'.\n"]
  | .unknown => .error (.thrown .exception [])

/-- `s_parse_options`; `operands` is what `getopt_long` leaves in `argv`. -/
def sParseOptions (answers : List GetoptAnswer) (operands : List String) : Res Options := do
  let o ← answers.foldlM parseOption Options.initial
  if 2 < operands.length then
    errEx ⟨.exception, .exception⟩ [.text "exceed number of arguments.\n"]
  else .ok { o with inputFilename := operands[0]?, outputFilename := operands[1]? }

/-! ## The input -/

/-- A message of the program itself. -/
def say (o : Options) (level : Nat) (args : List Arg) : Io Unit :=
  if level < o.verboseLevel then deliver render .stdout [.message level args] else pure ()

/-- `strrchr (name, '.')`. -/
def extension? (name : String) : Option String :=
  if '.' ∈ name.toList then
    some (String.ofList ('.' :: (name.toList.reverse.takeWhile (· ≠ '.')).reverse))
  else none

/-- The language and the format an extension stands for. -/
def languageOf (extpos : String) : Option (InputLanguage × FileFormat) :=
  if extpos = ".ta" then some (.ta, .plain)
  else if extpos = ".xta" then some (.xta, .plain)
  else if extpos = ".xml" then some (.xta, .xml)
  else none

/-- An option overrides what the extension says, with a warning when they differ. -/
def enforce {α : Type} [DecidableEq α] (o : Options) (what : String) (name : α → String)
    (extpos : Option String) (absent enforced found : α) : Io α :=
  if enforced = absent then pure found
  else if enforced = found then pure enforced
  else do
    say render o vlWarning [.text "warning: ", .text "enforced ", .text what, .text " '",
      .text (name enforced), .text "' for a file with extension ", .text (extpos.getD ""), .text ".\n"]
    pure enforced

/-- The language and the format of an input by its extension. -/
def byExtension (o : Options) : Option String → Io (InputLanguage × FileFormat)
  | none => pure (o.enforcedLanguage, o.enforcedFormat)
  | some ext =>
      match languageOf ext with
      | some found => pure found
      | none => do
          say render o vlWarning [.text "warning: ", .text "unknown extension '%s'.\n", .text ext]
          pure (o.enforcedLanguage, o.enforcedFormat)

/-- `s_compute_input_language`. -/
def sComputeInputLanguage (o : Options) : Io (InputLanguage × FileFormat) :=
  match o.inputFilename with
  | none => pure (o.enforcedLanguage, o.enforcedFormat)
  | some filename => do
      let extpos := extension? filename
      let found ← byExtension render o extpos
      let result ← enforce render o "language" InputLanguage.name extpos .none o.enforcedLanguage found.1
      let format ← enforce render o "file format" FileFormat.name extpos .none o.enforcedFormat found.2
      pure (result, format)

/-- `s_read_inputfile`. -/
def sReadInputfile (o : Options) : Io String := do
  let m ← get
  match o.inputFilename with
  | none => do
      say render o vlProgress [.text "reading input from: ", .text "standard input", .text ".\n"]
      pure m.stdin
  | some filename =>
      match m.files[filename]? with
      | some file =>
          if file.readable then do
            say render o vlProgress [.text "reading input from: ", .text filename, .text ".\n"]
            pure file.content
          else err [.text "can't open file '", .text filename, .text "': "]
      | none => err [.text "can't open file '", .text filename, .text "': "]

/-- What `parseXTA` and `parseXMLBuffer` make of an input. -/
structure Parsed where
  symbols : Symbol → SymbolData
  system : TimedAutomataSystem
  warnings : List String
  errors : List String

/-- The parser library: the input, its language and its format. -/
abbrev Parser := String → InputLanguage → FileFormat → Parsed

/-- The input is read as plain text when no format is known. -/
def plainByDefault (o : Options) (fmt : FileFormat) : Io FileFormat :=
  if fmt = .none then do
    say render o vlWarning [.text "warning: ", .text "enforcing plain format.\n"]
    pure .plain
  else pure fmt

/-- The warnings `main` prints behind the parser: it walks through the errors. -/
def printWarnings (o : Options) (parsed : Parsed) : Io Unit :=
  if !parsed.warnings.isEmpty ∧ 0 < o.verboseLevel then
    parsed.errors.forM fun e => say render o vlWarning [.text "warning: ", .text e]
  else pure ()

/-- The part of `main` before the output file is opened. -/
def loadModel (parser : Parser) (o : Options) : Io Parsed := do
  let (lang, fmt) ← sComputeInputLanguage render o
  if lang = .none then err [.text "can not determine input language ta or xta."]
  else do
    let fmt ← plainByDefault render o fmt
    let input ← sReadInputfile render o
    say render o vlProgress
      [.text "parsing ", .text lang.name, .text "/", .text fmt.name, .text " input.\n"]
    let parsed := parser input lang fmt
    printWarnings render o parsed
    if !parsed.errors.isEmpty then fromExcept (.error (.thrown .exception []))
    else do
      say render o vlProgress [.text "translating model into tchecker file format.\n"]
      pure parsed

/-! ## The output -/

/-- `s_file_exists`: the file can be opened for reading. -/
def sFileExists (m : Machine) (filename : String) : Bool :=
  match m.files[filename]? with
  | some file => file.readable
  | none => false

/-- `s_open_output_file`. -/
def sOpenOutputFile (o : Options) : Io Sink :=
  match o.outputFilename with
  | none => do
      modify fun m => { m with outputFilename := some "stdout" }
      pure .stdout
  | some filename => do
      let m ← get
      if sFileExists m filename ∧ ¬ o.eraseOutput then
        err [.text "output file '", .text filename, .text "' already exists."]
      else if m.canOpen filename then do
        modify fun m => m.truncate filename
        pure (.file filename)
      else err [.text "can't open file '", .text filename, .text "': "]

/-- What a character of the label of the system becomes, byte by byte. -/
def systemIdChars (c : Char) : List Char :=
  if c.isAlphanum || c == '_' || c == '.' then [c] else List.replicate c.utf8Size '_'

/-- `s_get_system_id`. -/
def sGetSystemId (o : Options) : String :=
  match if o.sysname.isNone then o.inputFilename else o.sysname with
  | none => "System"
  | some c => if c = "" then "System" else String.ofList (c.toList.flatMap systemIdChars)

/-- The comment `main` writes in front of the model. -/
def header (o : Options) : List Output :=
  [.comment [], .comment [.text "This file has been generated automatically with ",
    .text "uppaal-to-tchecker"]] ++
  (if 0 < o.verboseLevel then
    [.comment [.text "from file: ", .text (o.inputFilename.getD "stdin")]] else []) ++
  [.comment []]

/-- The environment of a translation. -/
def environment (stack : Nat) (o : Options) (parsed : Parsed) : Env :=
  ⟨parsed.symbols, o.verboseLevel, stack⟩

/-- The header and the model. -/
def writing (stack : Nat) (o : Options) (parsed : Parsed) (sink : Sink) : Io Unit := do
  deliver render sink (header o)
  let _ ← onSink render sink
    (translateModel (environment stack o parsed) (sGetSystemId o) parsed.system)

/-- The part of `main` behind the parser.  At the end of its scope `tas` is destroyed, whose
global declarations `translate_model` has copied; without an output file there is no copy. -/
def writeModel (stack : Nat) (o : Options) (parsed : Parsed) : Io Unit := do
  let sink ← sOpenOutputFile o
  leaving Fault.unwinds (destroyDeclarations parsed.system.globals 1) (writing render stack o parsed sink)

/-- The `try` block of `main`; the texts of `s_usage` and of the version are
passed as one write each. -/
def mainBody (parser : Parser) (stack : Nat) (usage version : Output)
    (answers : List GetoptAnswer) (operands : List String) : Io Unit := do
  let o ← fromExcept (sParseOptions answers operands)
  modify fun m => { m with outputFilename := o.outputFilename }
  if o.showHelp then deliver render .stdout [usage]
  else if o.showVersion then deliver render .stdout [version]
  else do
    let parsed ← loadModel render parser o
    writeModel render stack o parsed

/-- How the process ends. -/
inductive Exit where
  | success
  | failure
  /-- Killed by a signal, or without defined behaviour. -/
  | abnormal
  deriving DecidableEq, Repr

/-- The handlers of `main`. -/
def handleFault (fault : Fault) (m : Machine) : Exit × Machine :=
  match fault with
  | .thrown cls _ =>
      match cls, m.outputFilename with
      | .translationException, some name => (.failure, m.unlink name)
      | _, _ => (.failure, m)
  | _ => (.abnormal, m)

/-- The end of `main` after its `try` block. -/
def finish (outcome : Except Fault Unit × Machine) : Exit × Machine :=
  match outcome with
  | (.ok _, m) => (.success, m)
  | (.error fault, m) => handleFault fault m

/-- `main`. -/
def main (parser : Parser) (stack : Nat) (usage version : Output)
    (answers : List GetoptAnswer) (operands : List String) (m : Machine) : Exit × Machine :=
  finish (exec (mainBody render parser stack usage version answers operands)
    { m with outputFilename := none })

end

end Utot
