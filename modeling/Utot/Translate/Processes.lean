import Utot.Translate.Edges

/-!
# Processes

One process of the output for each full instantiation of a process of the model:
the parameters a system declaration leaves open are enumerated.
-/

namespace Utot

open Utap Library Tchecker

/-- `p.mapping[kv.first] = kv.second` for the entries of a mapping. -/
def mergeMapping (p : Instance) (mapping : Mapping) : Instance :=
  { p with mapping := mapping.toList.foldl (fun m kv => m.insert kv.1 kv.2) p.mapping }

/-- `s_translate_process` for one instantiation. -/
def sTranslateInstance (env : Env) (ctx : ContextPrefix) (p : Instance) (mapping : Mapping) :
    Tr Unit := do
  modify fun st => { st with localEvents := ∅ }
  assertTr (mapping.size == p.parameters.length) "mapping.size () == p.parameters.getSize ()"
  if 0 < p.unbound then commentln [.text "instantiation as ", .text (stringOf ctx)]
  let p := mergeMapping p mapping
  writeLine (.process (stringOf ctx))
  translateDeclarations env p ctx p.templ.toDeclarations
  sTranslateStates env ctx p
  sTranslateEdges env ctx p
  write .blank

/-- `s_assignment_to_string`. -/
def sAssignmentToString (env : Env) (s : Symbol) (value : Int) : String :=
  env.getName s ++ "_" ++ toString value

/-- `s_translate_process_rec`: the last open parameter is enumerated first. -/
def sTranslateProcessRec (env : Env) (p : Instance) :
    Nat → ContextPrefix → Mapping → Tr Unit
  | 0, ctx, mapping => sTranslateInstance env ctx p mapping
  | nbUnbound + 1, ctx, mapping => do
      let s ← fromExcept (orAssert "i < getSize ()" p.parameters[nbUnbound]?)
      let (min, max) ← fromExcept (enumerationBounds env p s)
      forRange min max fun i =>
        sTranslateProcessRec env p nbUnbound (ctx ++ [sAssignmentToString env s i])
          (mapping.insert s (Expr.createConstant i))

/-- `s_translate_process`. -/
def sTranslateProcess (env : Env) (p : Instance) : Tr Unit := do
  let name := env.getName p.uid
  commentln [.text "compilation of process ", .text name]
  if 0 < p.unbound then
    msg env.verboseLevel vlInfo [.text "enumerating values of parameters for partially instantiated process '",
      .text name, .text "'.\n"]
    sTranslateProcessRec env p p.unbound [name] p.mapping
  else sTranslateInstance env [name] p p.mapping

end Utot
