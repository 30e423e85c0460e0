import Utot.Run.Faults
import Utot.Translate.InPlace

/-!
# What a translation reads of an instance

Expressions, edges and processes read a mapping only by looking symbols up, so
that overwriting a binding is as good as binding afresh.
-/

namespace Utot

open Utap Library Tchecker

/-! ## Expressions -/

section

variable {env : Env} {p q : Option Instance} (same : ∀ s, mapped? p s = mapped? q s)

include same

theorem evalAux_agree (depth : Nat) : evalAux env depth p = evalAux env depth q := by
  induction depth with
  | zero => rfl
  | succ depth ih =>
      funext e
      cases e with
      | binary k l r t => cases k <;> simp only [evalAux, ih]
      | unary k x t => cases k <;> simp only [evalAux, ih]
      | nary k es t => cases k <;> simp only [evalAux, ih]
      | _ => simp only [evalAux, ih, same]

theorem evalIntegerConstant_agree : evalIntegerConstant env p = evalIntegerConstant env q :=
  evalAux_agree same env.stack

theorem computeRangeBounds_agree : computeRangeBounds env p = computeRangeBounds env q := by
  unfold computeRangeBounds
  rw [evalIntegerConstant_agree same]

theorem isOneDimArrayVariable_agree :
    isOneDimArrayVariable env p = isOneDimArrayVariable env q := by
  funext e
  unfold isOneDimArrayVariable isOneDimArrayType areAllEqualsInList
  rw [computeRangeBounds_agree same]

theorem translateEventAux_agree (depth : Nat) :
    translateEventAux env depth p = translateEventAux env depth q := by
  induction depth with
  | zero => rfl
  | succ depth ih =>
      funext e ctx
      cases e with
      | binary k l r t =>
          cases k <;> simp only [translateEventAux, ih, evalIntegerConstant_agree same,
            computeRangeBounds_agree same]
      | _ => simp only [translateEventAux, ih, same]

theorem translateAux_agree (depth : Nat) : translateAux env depth p = translateAux env depth q := by
  induction depth with
  | zero => rfl
  | succ depth ih =>
      funext e ctx
      cases e with
      | binary k l r t =>
          cases k <;> simp only [translateAux, ih, evalIntegerConstant_agree same,
            isOneDimArrayVariable_agree same]
      | unary k x t => cases k <;> simp only [translateAux, ih]
      | _ => simp only [translateAux, ih, same, translateEventAux_agree same]

theorem translateExpression_agree : translateExpression env p = translateExpression env q :=
  translateAux_agree same env.stack

theorem translateAssignment_agree (e : Expr) (ctx : ContextPrefix) :
    translateAssignment env p e ctx = translateAssignment env q e ctx := by
  fun_induction translateAssignment env p e ctx <;>
    simp_all only [translateAssignment, assignBinaryOp, translateExpression_agree same]

end

/-! ## Edges and processes -/

/-- Two copies of an instance whose mappings have the same bindings. -/
structure Agree (p q : Instance) : Prop where
  uid : p.uid = q.uid
  parameters : p.parameters = q.parameters
  unbound : p.unbound = q.unbound
  templ : p.templ = q.templ
  lookup : ∀ s : Symbol, p.mapping[s]? = q.mapping[s]?

section

variable {env : Env} {p q : Instance}

theorem Agree.refl (p : Instance) : Agree p p := ⟨rfl, rfl, rfl, rfl, fun _ => rfl⟩

theorem Agree.trans {r : Instance} (first : Agree p q) (second : Agree q r) : Agree p r where
  uid := first.uid.trans second.uid
  parameters := first.parameters.trans second.parameters
  unbound := first.unbound.trans second.unbound
  templ := first.templ.trans second.templ
  lookup s := (first.lookup s).trans (second.lookup s)

theorem Agree.mapped (agree : Agree p q) (s : Symbol) : mapped? (some p) s = mapped? (some q) s :=
  agree.lookup s

theorem sBuildEdgeLabel_agree (agree : Agree p q) (kind : SyncKind) (channel : Expr)
    (ctx : ContextPrefix) :
    sBuildEdgeLabel env kind channel ctx p = sBuildEdgeLabel env kind channel ctx q := by
  unfold sBuildEdgeLabel baseLabel
  rw [translateExpression_agree agree.mapped]

theorem sTranslateEdge_agree (agree : Agree p q) (e : Edge) (ctx : ContextPrefix) :
    sTranslateEdge env e ctx p = sTranslateEdge env e ctx q := by
  have label : edgeEvent env e ctx p = edgeEvent env e ctx q := by
    unfold edgeEvent
    split
    · rfl
    · exact sBuildEdgeLabel_agree agree _ _ ctx
    · rfl
  unfold sTranslateEdge edgeAttributes selectionComment
  simp only [label, agree.lookup, translateExpression_agree agree.mapped,
    translateAssignment_agree agree.mapped]

theorem enumerationBounds_agree (agree : Agree p q) (s : Symbol) :
    enumerationBounds env p s = enumerationBounds env q s := by
  unfold enumerationBounds
  rw [evalIntegerConstant_agree agree.mapped]

theorem Agree.bind (agree : Agree p q) (s : Symbol) (i : Int) :
    Agree (bindConstant p s i) (bindConstant q s i) where
  uid := agree.uid
  parameters := agree.parameters
  unbound := agree.unbound
  templ := agree.templ
  lookup s' := by
    unfold bindConstant
    rw [Std.TreeMap.getElem?_insert, Std.TreeMap.getElem?_insert, agree.lookup]

/-- An overwritten binding leaves no trace. -/
theorem agree_rebind (p : Instance) (s : Symbol) (i j : Int) :
    Agree (bindConstant (bindConstant p s i) s j) (bindConstant p s j) where
  uid := rfl
  parameters := rfl
  unbound := rfl
  templ := rfl
  lookup s' := by
    unfold bindConstant
    dsimp only
    rw [Std.TreeMap.getElem?_insert, Std.TreeMap.getElem?_insert, Std.TreeMap.getElem?_insert]
    split
    · rfl
    · rfl

theorem sTranslateEdgeWithSelect_agree (agree : Agree p q) (e : Edge) (ctx : ContextPrefix)
    (select : List Symbol) :
    sTranslateEdgeWithSelect env e ctx select p = sTranslateEdgeWithSelect env e ctx select q := by
  induction select generalizing p q with
  | nil => exact sTranslateEdge_agree agree e ctx
  | cons sel rest ih =>
      unfold sTranslateEdgeWithSelect
      rw [enumerationBounds_agree agree]
      simp only [fun i => ih (agree.bind sel i)]

/-! ## Overwritten variables -/

/-- A loop that carries a variable, and a loop whose rounds need it no more. -/
theorem forRangeWith_discard {β γ : Type} {m M : Int} {f : β → Int → Tr β} {g : Int → Tr Unit}
    {next : β → Int → β} {I : β → Prop}
    (round : ∀ b i, I b → f b i = g i >>= fun _ => pure (next b i))
    (kept : ∀ b i, I b → I (next b i)) (k : Tr γ) {b : β} (start : I b) :
    (forRangeWith m M f b >>= fun _ => k) = forRange m M g >>= fun _ => k := by
  unfold forRangeWith forRange
  rw [bind_assoc, bind_assoc, ← foldlM_discard round kept _ start]
  congr 1
  funext b'
  split
  · simp only [bind_assoc, pure_bind]
  · rw [pure_bind, pure_bind]

/-- Overwriting the copy of the mapping gives the same edges. -/
theorem edgeWithSelect_inPlace (e : Edge) (ctx : ContextPrefix) (select : List Symbol) (p : Instance) :
    (sTranslateEdgeWithSelectInPlace env e ctx select p >>= fun _ => pure ()) =
      sTranslateEdgeWithSelect env e ctx select p := by
  induction select generalizing p with
  | nil =>
      unfold sTranslateEdgeWithSelectInPlace sTranslateEdgeWithSelect
      simp only [bind_assoc, pure_bind]
      exact bind_pure _
  | cons sel rest ih =>
      unfold sTranslateEdgeWithSelectInPlace sTranslateEdgeWithSelect
      simp only [bind_assoc, pure_bind]
      congr 1
      funext ⟨min, max⟩
      have round : ∀ (q : Instance) (i : Int),
          (∀ j, Agree (bindConstant q sel j) (bindConstant p sel j)) →
          (do
            let q := bindConstant q sel i
            let _ ← sTranslateEdgeWithSelectInPlace env e ctx rest q
            pure q : Tr Instance) =
          sTranslateEdgeWithSelect env e ctx rest (bindConstant p sel i) >>= fun _ =>
            pure (bindConstant q sel i) := by
        intro q i agree
        rw [← sTranslateEdgeWithSelect_agree (agree i), ← ih, bind_assoc]
        rfl
      have kept : ∀ (q : Instance) (i : Int),
          (∀ j, Agree (bindConstant q sel j) (bindConstant p sel j)) →
          ∀ j, Agree (bindConstant (bindConstant q sel i) sel j) (bindConstant p sel j) :=
        fun q i agree j => (agree_rebind q sel i j).trans (agree j)
      have loop := forRangeWith_discard (m := min) (M := max) round kept (pure ()) fun i => .refl _
      rwa [bind_pure_unit] at loop

/-- Translating every edge with its own copy of the instance. -/
theorem edges_inPlace (ctx : ContextPrefix) (p : Instance) :
    sTranslateEdgesInPlace env ctx p = sTranslateEdges env ctx p := by
  unfold sTranslateEdgesInPlace sTranslateEdges
  congr 1
  funext e
  exact edgeWithSelect_inPlace e ctx e.select p

/-- A mapping with an overwritten binding. -/
theorem insert_insert_equiv (m : Mapping) (s : Symbol) (a b : Expr) :
    ((m.insert s a).insert s b).Equiv (m.insert s b) := by
  apply Std.TreeMap.Equiv.of_forall_constGet?_eq
  intro s'
  rw [Std.TreeMap.getElem?_insert, Std.TreeMap.getElem?_insert, Std.TreeMap.getElem?_insert]
  split
  · rfl
  · rfl

theorem insert_equiv {m m' : Mapping} (equiv : m.Equiv m') (s : Symbol) (a : Expr) :
    (m.insert s a).Equiv (m'.insert s a) := by
  apply Std.TreeMap.Equiv.of_forall_constGet?_eq
  intro s'
  rw [Std.TreeMap.getElem?_insert, Std.TreeMap.getElem?_insert, equiv.getElem?_eq]

theorem sTranslateProcessRec_equiv (p : Instance) (n : Nat) (ctx : ContextPrefix) {m m' : Mapping}
    (equiv : m.Equiv m') : sTranslateProcessRec env p n ctx m = sTranslateProcessRec env p n ctx m' := by
  induction n generalizing ctx m m' with
  | zero =>
      unfold sTranslateProcessRec sTranslateInstance mergeMapping
      rw [equiv.size_eq, equiv.toList_eq]
  | succ n ih =>
      unfold sTranslateProcessRec
      simp only [fun s i ctx => ih ctx (insert_equiv equiv s (Expr.createConstant i))]

/-- Overwriting the copies of the prefix and the mapping gives the same processes. -/
theorem processRec_inPlace (p : Instance) (n : Nat) (ctx : ContextPrefix) (m : Mapping) :
    (sTranslateProcessRecInPlace env p n ctx m >>= fun _ => pure ()) =
      sTranslateProcessRec env p n ctx m := by
  induction n generalizing ctx m with
  | zero =>
      unfold sTranslateProcessRecInPlace sTranslateProcessRec
      simp only [bind_assoc, pure_bind]
      exact bind_pure _
  | succ n ih =>
      unfold sTranslateProcessRecInPlace sTranslateProcessRec
      simp only [bind_assoc]
      congr 1
      funext s
      congr 1
      funext ⟨min, max⟩
      have round : ∀ (b : ContextPrefix × Mapping) (i : Int),
          (b.1 = ctx ∧ ∀ j, (b.2.insert s (Expr.createConstant j)).Equiv
            (m.insert s (Expr.createConstant j))) →
          (do
            let ctx := b.1 ++ [sAssignmentToString env s i]
            let mapping := b.2.insert s (Expr.createConstant i)
            let _ ← sTranslateProcessRecInPlace env p n ctx mapping
            pure (ctx.dropLast, mapping) : Tr (ContextPrefix × Mapping)) =
          sTranslateProcessRec env p n (ctx ++ [sAssignmentToString env s i])
              (m.insert s (Expr.createConstant i)) >>= fun _ =>
            pure (b.1, b.2.insert s (Expr.createConstant i)) := by
        intro b i holds
        obtain ⟨rfl, equiv⟩ := holds
        rw [← sTranslateProcessRec_equiv p n _ (equiv i), ← ih, bind_assoc]
        dsimp only
        rw [List.dropLast_concat]
        rfl
      have kept : ∀ (b : ContextPrefix × Mapping) (i : Int),
          (b.1 = ctx ∧ ∀ j, (b.2.insert s (Expr.createConstant j)).Equiv
            (m.insert s (Expr.createConstant j))) →
          b.1 = ctx ∧ ∀ j, ((b.2.insert s (Expr.createConstant i)).insert s
            (Expr.createConstant j)).Equiv (m.insert s (Expr.createConstant j)) :=
        fun b i holds => ⟨holds.1, fun j => (insert_insert_equiv _ _ _ _).trans (holds.2 j)⟩
      have loop := forRangeWith_discard (m := min) (M := max) round kept (pure ()) (b := (ctx, m))
        ⟨rfl, fun i => .rfl⟩
      rwa [bind_pure_unit] at loop

theorem process_inPlace (p : Instance) :
    sTranslateProcessInPlace env p = sTranslateProcess env p := by
  unfold sTranslateProcessInPlace sTranslateProcess
  simp only [← processRec_inPlace]

end

end Utot
