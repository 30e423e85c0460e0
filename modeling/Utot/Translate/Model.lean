import Utot.Translate.Processes
import Utot.Translate.Synchronisation

/-!
# The whole model

`translate_model`: the global declarations, the IO sections, the processes and
the synchronisation vectors.
-/

namespace Utot

open Utap Library Tchecker

/-! ## IO sections -/

/-- The labels of the events one IO section lists. -/
def sectionLabels (env : Env) : List Expr → Res (List String)
  | [] => .ok []
  | e :: rest => do
      let ev ← translateExpression env none e []
      let labels ← sectionLabels env rest
      .ok (ev :: labels)

/-- One round of the loop of `s_register_iodecl` for a section with CSP events. -/
def registerSection (env : Env) (allowed : Std.TreeMap String EventSet) (d : IoDecl) :
    Res (Std.TreeMap String EventSet) :=
  if d.csp.isEmpty then .ok allowed
  else do
    let labels ← sectionLabels env d.csp
    let eset := labels.foldl (fun eset ev => eset.insert ev) (allowed[d.instanceName]?.getD ∅)
    .ok (allowed.insert d.instanceName eset)

/-- `s_register_iodecl`. -/
def sRegisterIodecl (env : Env) (decls : Declarations) (allowed : Std.TreeMap String EventSet) :
    Res (Std.TreeMap String EventSet) :=
  decls.iodecl.foldlM (registerSection env) allowed

/-! ## The table of events -/

/-- `s_display_proc_set`. -/
def sDisplayProcSet (env : Env) (action : String) (entry : String × ProcSet) : Tr Unit := do
  msg env.verboseLevel vlInfo [.text entry.1, .text " ", .text action, .text ":"]
  if vlInfo ≤ env.verboseLevel then
    write (.message vlInfo ((entry.2.toList.flatMap fun p => [Arg.text " ", .text p]) ++ [.text "\n"]))

/-- `s_display_table_of_events`. -/
def sDisplayTableOfEvents (env : Env) : Tr Unit := do
  if vlInfo < env.verboseLevel then
    let st ← get
    msg env.verboseLevel vlInfo [.text "Table of events:\n"]
    st.events.emitters.map.toList.forM (sDisplayProcSet env "is emitted by")
    st.events.receivers.map.toList.forM (sDisplayProcSet env "is received by")
    st.events.csp.map.toList.forM (sDisplayProcSet env "synchronizes")
    if !st.events.labels.isEmpty then
      msg env.verboseLevel vlInfo [.text "global events:\n"]
      st.events.labels.toList.forM fun e => msg env.verboseLevel vlInfo [.text "\t", .text e, .text "\n"]
    if !st.events.brodcasts.isEmpty then
      msg env.verboseLevel vlInfo [.text "broadcast events:\n"]
      st.events.brodcasts.toList.forM fun e =>
        msg env.verboseLevel vlInfo [.text "\t", .text e, .text "\n"]

/-! ## Translation -/

/-- The IO sections of the global declarations. -/
def registerIoSections (env : Env) (globals : Declarations) : Tr Unit := do
  if globals.iodecl.isEmpty then commentln [.text "no iodecl"]
  else
    let st ← get
    let allowed ← fromExcept (sRegisterIodecl env globals st.events.allowedCsp)
    modify fun st => { st with events := { st.events with allowedCsp := allowed } }

/-- The first statements of the `try` block of `translate_model`, up to the loop
over the processes. -/
def translateProcesses (env : Env) (sysname : String) (tas : TimedAutomataSystem) : Tr Unit := do
  writeLine (.system sysname)
  translateDeclarations env none [] tas.globals
  registerIoSections env tas.globals
  tas.processes.forM (sTranslateProcess env)

/-- The statements of the `try` block. -/
def translateSystem (env : Env) (sysname : String) (tas : TimedAutomataSystem) : Tr Unit := do
  translateProcesses env sysname tas
  sDisplayTableOfEvents env
  sGenerateSyncVectors

/-- The destructor of one of the copies of some declarations, when a number of others have
been destroyed: the bodies of the functions are deleted once more. -/
def destroyDeclarations (decls : Declarations) (destroyed : Nat) : Res Unit :=
  if decls.sharesBodies ∧ 0 < destroyed then .error (.undefined "double delete") else .ok ()

/-- The copies of `globals` that have been destroyed when `translate_model` destroys its own:
`s_register_iodecl` takes its argument by value. -/
def registeredCopies (globals : Declarations) : Nat := if globals.iodecl.isEmpty then 0 else 1

/-- The `try` block, with the local copy `globals`.  Where the declarations throw, it is the
first copy that is destroyed. -/
def translateBlock (env : Env) (sysname : String) (tas : TimedAutomataSystem) : Tr Bool := do
  writeLine (.system sysname)
  translateDeclarations env none [] tas.globals
  leaving Fault.unwinds (destroyDeclarations tas.globals (registeredCopies tas.globals)) (do
    registerIoSections env tas.globals
    tas.processes.forM (sTranslateProcess env)
    sDisplayTableOfEvents env
    sGenerateSyncVectors)
  pure true

/-- `translate_model`; its handler names `translation_exception`. -/
def translateModel (env : Env) (sysname : String) (tas : TimedAutomataSystem) : Tr Bool := do
  msg env.verboseLevel vlProgress [.text "starting translation.\n"]
  let result ← tryCatch (translateBlock env sysname tas)
    fun fault =>
      match fault with
      | .thrown .translationException _ => pure false
      | other => throw other
  msg env.verboseLevel vlProgress [.text "translation terminated.\n"]
  pure result

end Utot
