import Utot.Translate.Processes

/-!
# Enumerations that overwrite their variables

`s_translate_edge_with_select` and `s_translate_process_rec` as the source writes
them: a round of a loop overwrites the binding, and extends and shortens the
prefix, in the variables of its function; calls get copies of these variables.
-/

namespace Utot

open Utap Library Tchecker

/-- `for (int i = min; i <= max; i++)` whose body assigns to a variable. -/
def forRangeWith {β : Type} (min max : Int) (body : β → Int → Tr β) (b : β) : Tr β := do
  let b ← (intRange min max).foldlM body b
  if min ≤ max ∧ max = intMax then fromExcept (.error (.undefined "signed overflow"))
  pure b

/-- `if (!oldval.empty ()) p.mapping[sel] = oldval`. -/
def restoreBinding (p : Instance) (sel : Symbol) : Option Expr → Instance
  | some oldval => { p with mapping := p.mapping.insert sel oldval }
  | none => p

/-- `s_translate_edge_with_select`; the result is the copy `p` of the instance at
the end of the function. -/
def sTranslateEdgeWithSelectInPlace (env : Env) (e : Edge) (ctx : ContextPrefix) :
    List Symbol → Instance → Tr Instance
  | [], p => do
      sTranslateEdge env e ctx p
      pure p
  | sel :: rest, p => do
      let oldval := p.mapping[sel]?
      let (min, max) ← fromExcept (enumerationBounds env p sel)
      let p ← forRangeWith min max (fun p i => do
        let p := bindConstant p sel i
        let _ ← sTranslateEdgeWithSelectInPlace env e ctx rest p
        pure p) p
      pure (restoreBinding p sel oldval)

/-- `s_translate_edges`; every edge is translated with a copy of the instance. -/
def sTranslateEdgesInPlace (env : Env) (ctx : ContextPrefix) (p : Instance) : Tr Unit :=
  p.templ.edges.forM fun e => do
    let _ ← sTranslateEdgeWithSelectInPlace env e ctx e.select p

/-- `s_translate_process_rec`; the result is the copies of `ctx` and `mapping` at the
end of the function. -/
def sTranslateProcessRecInPlace (env : Env) (p : Instance) :
    Nat → ContextPrefix → Mapping → Tr (ContextPrefix × Mapping)
  | 0, ctx, mapping => do
      sTranslateInstance env ctx p mapping
      pure (ctx, mapping)
  | nbUnbound + 1, ctx, mapping => do
      let s ← fromExcept (orAssert "i < getSize ()" p.parameters[nbUnbound]?)
      let (min, max) ← fromExcept (enumerationBounds env p s)
      forRangeWith min max (fun copies i => do
        let ctx := copies.1 ++ [sAssignmentToString env s i]
        let mapping := copies.2.insert s (Expr.createConstant i)
        let _ ← sTranslateProcessRecInPlace env p nbUnbound ctx mapping
        pure (ctx.dropLast, mapping)) (ctx, mapping)

/-- `s_translate_process`, which calls with copies of the prefix and the mapping. -/
def sTranslateProcessInPlace (env : Env) (p : Instance) : Tr Unit := do
  let name := env.getName p.uid
  commentln [.text "compilation of process ", .text name]
  if 0 < p.unbound then do
    msg env.verboseLevel vlInfo [.text "enumerating values of parameters for partially instantiated process '",
      .text name, .text "'.\n"]
    let _ ← sTranslateProcessRecInPlace env p p.unbound [name] p.mapping
  else sTranslateInstance env [name] p p.mapping

end Utot
