import Utot.Meaning.Updates
import Utot.Network.Instances
import Utot.Run.Beginnings
import Utot.Tchecker.Network

/-!
# Data on both sides

A store of the model and a valuation of the output that agree for every instance
agree after an update of one of them: the instance itself sees what it has
assigned, the others see the global part of it, and the names of what they
declare themselves are in no statement of the update.
-/

namespace Utot

open Utap Uppaal Library Tchecker

/-! ## Agreement -/

/-- The arrays have the same bounds for both instances. -/
def SameBounds (env : Env) (scope : List Symbol) (p q : Option Instance) : Prop :=
  ∀ c ∈ scope, oneDim env c = true → indexBounds env p (env.getType c) = indexBounds env q (env.getType c)

/-- The instance a variable is declared in, none for a global one. -/
def declarer (env : Env) (p : Instance) (c : Symbol) : Option Instance :=
  if env.hasParent c then some p else none

section

variable {V : Type} (A : Arithmetic V) (env : Env) (tas : TimedAutomataSystem)

/-- The valuation has the values of the store, for every instance. -/
structure SameData (S : Store V) (τ : Valuation V) : Prop where
  constants : ∀ o p, Lives env tas o p →
    GivesConstants A env (some (instanceWith p o.2)) (view env o S)
  carries : ∀ o p, Lives env tas o p →
    Carries env (some (instanceWith p o.2)) (prefixOf env p o.2) (scopeOf tas p) (view env o S) τ
  /-- Only declared clocks exist. -/
  clocks : ∀ o p, Lives env tas o p → ∀ c ∈ scopeOf tas p, Clocks (env.getType c) → ∀ indices,
    view env o S c indices ≠ none → DeclaredCell env (declarer env (instanceWith p o.2) c) c indices

/-- Names are bound before they are used: neither the bounds of arrays nor the
initialisers of constants depend on what is bound inside of their scope. -/
structure BindingsLayered : Prop where
  globals : ∀ o p, Lives env tas o p →
    SameBounds env tas.globals.vars.tail (some (instanceWith p o.2)) none
  bounds : ∀ o p, Lives env tas o p → ∀ e ∈ p.templ.edges, ∀ q,
    Chooses env e.select (instanceWith p o.2) q →
      SameBounds env (scopeOf tas p) (some q) (some (instanceWith p o.2))
  constants : ∀ o p, Lives env tas o p → ∀ e ∈ p.templ.edges, ∀ q,
    Chooses env e.select (instanceWith p o.2) q → ∀ σ : State V,
      GivesConstants A env (some (instanceWith p o.2)) σ → GivesConstants A env (some q) σ

end

section

variable {V : Type} {A : Arithmetic V} {env : Env} {tas : TimedAutomataSystem} {p q : Option Instance}
  {ctx : ContextPrefix} {scope : List Symbol} {e : Expr}

theorem Carries.ofBounds {σ : State V} {τ : Valuation V} (carries : Carries env p ctx scope σ τ)
    (bounds : SameBounds env scope q p) : Carries env q ctx scope σ τ where
  cells := carries.cells
  lines c inside line min max found i := by
    rw [bounds c inside line] at found
    exact carries.lines c inside line min max found i

/-- States with the same constants give them the same values. -/
theorem givesConstants_of_same {σ σ' : State V} (constants : GivesConstants A env p σ)
    (same : ∀ c, (env.getType c).isConstant = true → ∀ indices, σ' c indices = σ c indices) :
    GivesConstants A env p σ' := by
  intro c init indices v constant given value
  rw [same c constant]
  exact constants c init indices v constant given value

theorem SameBounds.symm (bounds : SameBounds env scope p q) : SameBounds env scope q p :=
  fun c inside line => (bounds c inside line).symm

/-! ## What an update leaves alone -/

theorem store_other {σ σ' : State V} {c : Symbol} {is : Option (List Int)} {v : Option V}
    (stored : σ.store c is v = some σ') {c' : Symbol} (other : c' ≠ c) (indices : List Int) :
    σ' c' indices = σ c' indices := by
  obtain ⟨is', _, stored⟩ := Option.bind_eq_some_iff.mp stored
  obtain ⟨_, _, stored⟩ := Option.bind_eq_some_iff.mp stored
  obtain ⟨w, _, rfl⟩ := Option.map_eq_some_iff.mp stored
  exact if_neg fun same => other same.1

theorem store_exists {σ σ' : State V} {c : Symbol} {is : Option (List Int)} {v : Option V}
    (stored : σ.store c is v = some σ') {c' : Symbol} {indices : List Int}
    (some' : σ' c' indices ≠ none) : σ c' indices ≠ none := by
  obtain ⟨is', _, stored⟩ := Option.bind_eq_some_iff.mp stored
  obtain ⟨old, before, stored⟩ := Option.bind_eq_some_iff.mp stored
  obtain ⟨w, _, rfl⟩ := Option.map_eq_some_iff.mp stored
  by_cases same : c' = c ∧ indices = is'
  · obtain ⟨rfl, rfl⟩ := same
    rw [before]
    exact Option.some_ne_none old
  · rwa [State.set, if_neg same] at some'

/-- An update makes no cells. -/
theorem exists_of_executes {F : State V → Option (State V)} (executes : Executes A env p e F)
    {σ σ' : State V} (leads : F σ = some σ') {c : Symbol} {indices : List Int}
    (some' : σ' c indices ≠ none) : σ c indices ≠ none := by
  induction executes generalizing σ σ' with
  | assign => exact store_exists leads some'
  | compound => exact store_exists leads some'
  | step => exact store_exists leads some'
  | comma _ _ ihF ihG =>
      obtain ⟨middle, first, second⟩ := Option.bind_eq_some_iff.mp leads
      exact ihF first (ihG second some')
  | skip =>
      cases leads
      exact some'

theorem target_mutable {l : Expr} {c : Symbol} {g : State V → Option (List Int)}
    (checked : Checked env p scope l) (target : FaithfulTarget env p l) (stores : Stores A env p l c g) :
    (env.getType c).isConstant = false := by
  cases target with
  | cell path _ references mutable' =>
      rwa [(place_of_denotes checked path.denotes (means_of_stores references stores)).1]
  | element array _ references mutable' =>
      cases stores with
      | cell stores => rwa [(place_whole array.denotes (means_of_stores references stores)).1]

/-- An update changes no constant. -/
theorem constants_of_executes (checked : Checked env p scope e) (faithful : FaithfulUpdate env p e)
    {text : String} (printed : translateAssignment env p e ctx = .ok text)
    {F : State V → Option (State V)} (executes : Executes A env p e F) {σ σ' : State V}
    (leads : F σ = some σ') {c : Symbol} (constant : (env.getType c).isConstant = true)
    (indices : List Int) : σ' c indices = σ c indices := by
  have apart {l : Expr} {c' : Symbol} {g : State V → Option (List Int)} (checked : Checked env p scope l)
      (target : FaithfulTarget env p l) (stores : Stores A env p l c' g) : c ≠ c' := by
    rintro rfl
    rw [target_mutable checked target stores] at constant
    cases constant
  induction executes generalizing σ σ' text with
  | @assign l r t c' g f stores =>
      cases faithful with
      | assign target => exact store_other leads (apart checked.left target stores) indices
      | compound listed => cases listed
      | rejectedBinary noAssign => exact absurd rfl noAssign
  | compound operator stores =>
      cases faithful with
      | assign => cases operator
      | compound listed target => exact store_other leads (apart checked.left target stores) indices
      | comma => cases operator
      | rejectedBinary noAssign noComma unlisted =>
          exact absurd printed (translateAssignment_rejectedBinary noAssign noComma unlisted)
  | step operator stores =>
      cases faithful with
      | step listed target => exact store_other leads (apart checked.unary target stores) indices
      | rejectedUnary unlisted => exact absurd printed (translateAssignment_rejectedUnary unlisted)
  | comma first second ihF ihG =>
      cases faithful with
      | compound listed => cases listed
      | comma faithful faithful' =>
          obtain ⟨_, printed, rest⟩ := Res.bind_eq_ok.mp printed
          obtain ⟨_, printed', _⟩ := Res.bind_eq_ok.mp rest
          obtain ⟨middle, before, after⟩ := Option.bind_eq_some_iff.mp leads
          rw [ihG checked.right faithful' printed' after, ihF checked.left faithful printed before]
      | rejectedBinary _ noComma => exact absurd rfl noComma
  | skip =>
      cases leads
      rfl

/-- Names that are in no statement keep their values. -/
theorem scalar_of_stored {ss : List Statement} {τ τ' : Valuation V} (stored : ∀ s ∈ ss, Stored env ctx scope s)
    (run : runAll A ss τ = some τ') {id : String} (other : ∀ cell, ¬ CellOf env ctx scope id cell) :
    τ'.scalar id = τ.scalar id := by
  refine scalar_of_runAll run fun s member x same => ?_
  subst same
  obtain ⟨cell, named⟩ := stored _ member
  exact other cell named

theorem cell_of_stored {ss : List Statement} {τ τ' : Valuation V} (stored : ∀ s ∈ ss, Stored env ctx scope s)
    (run : runAll A ss τ = some τ') {id : String}
    (other : ∀ c ∈ scope, oneDim env c = true → id ≠ symbolName env ctx c) (index : Int) :
    τ'.cell id index = τ.cell id index := by
  refine cell_of_runAll run (fun s member i x same => ?_) index
  subst same
  obtain ⟨c, inside, line, named⟩ := stored _ member
  exact other c inside line named

end

/-! ## An update of one instance -/

section

variable {V : Type} {A : Arithmetic V} {env : Env} {tas : TimedAutomataSystem} {p p' q : Instance}
  {o o' : Owner} {S : Store V} {τ τ' : Valuation V} {σ' : State V} {ss : List Statement}

/-- What only one of two instances sees is not named like anything the other one sees. -/
theorem name_ne_of_local (scopes : Scoped env tas) (apart : NamesUnconfused env tas)
    (lives : Lives env tas o p) (lives' : Lives env tas o' p') (differ : o' ≠ o) {c c' : Symbol}
    (inside : c ∈ scopeOf tas p) (inTemplate : c' ∈ p'.templ.vars) (indices indices' : List Int) :
    cellName (symbolName env (prefixOf env p o.2) c) indices.reverse ≠
      cellName (symbolName env (prefixOf env p' o'.2) c') indices'.reverse := by
  intro same
  have named := named_of_scope scopes lives inside indices
  have named' := named_of_scope scopes lives' (mem_scopeOf.mpr (.inr inTemplate)) indices'
  rw [same] at named
  have owners := congrArg Cell.owner (apart.cell_eq scopes.toDistinctSymbols named' named)
  simp only [cellAt, scopes.locals p' lives'.listed c' inTemplate, if_true] at owners
  split at owners
  · exact differ (Option.some.inj owners)
  · cases owners

variable (scopes : Scoped env tas) (apart : NamesUnconfused env tas) (layered : BindingsLayered A env tas)

include scopes apart layered

/-- Another instance sees the global part of an update on both sides. -/
theorem carries_other (same : SameData A env tas S τ) (lives : Lives env tas o p)
    (lives' : Lives env tas o' p') (differ : o' ≠ o) (stored : ∀ s ∈ ss,
      Stored env (prefixOf env p o.2) (scopeOf tas p) s) (run : runAll A ss τ = some τ')
    (carries : Carries env (some (instanceWith p o.2)) (prefixOf env p o.2) (scopeOf tas p) σ' τ') :
    Carries env (some (instanceWith p' o'.2)) (prefixOf env p' o'.2) (scopeOf tas p')
      (view env o' (put env o S σ')) τ' := by
  have before := same.carries o' p' lives'
  have globalName {c : Symbol} (global : c ∈ tas.globals.vars.tail) :
      symbolName env (prefixOf env p' o'.2) c = symbolName env (prefixOf env p o.2) c := by
    unfold symbolName
    rw [scopes.globals c (List.mem_of_mem_tail global)]
    rfl
  constructor
  · intro c inside split indices
    rw [view_put_other differ]
    rcases mem_scopeOf.mp inside with global | inTemplate
    · rw [scopes.globals c (List.mem_of_mem_tail global), globalName global]
      exact carries.cells c (mem_scopeOf.mpr (.inl global)) split indices
    · rw [if_pos (scopes.locals p' lives'.listed c inTemplate), ← before.cells c inside split indices]
      refine scalar_of_stored stored run fun cell named => ?_
      exact name_ne_of_local scopes apart lives lives' differ named.1 inTemplate _ _ named.2.2.symm
  · intro c inside line min max bounds i
    rw [view_put_other differ]
    rcases mem_scopeOf.mp inside with global | inTemplate
    · rw [scopes.globals c (List.mem_of_mem_tail global), globalName global]
      refine carries.lines c (mem_scopeOf.mpr (.inl global)) line min max ?_ i
      rw [layered.globals o p lives c global line, ← layered.globals o' p' lives' c global line]
      exact bounds
    · rw [if_pos (scopes.locals p' lives'.listed c inTemplate), ← before.lines c inside line min max bounds i]
      refine cell_of_stored stored run (fun c' inside' _ named => ?_) _
      exact name_ne_of_local scopes apart lives lives' differ inside' inTemplate [] [] named.symm

/-- An update of one instance leads to data that agree. -/
theorem SameData.update (same : SameData A env tas S τ) (lives : Lives env tas o p) {e : Edge}
    (member : e ∈ p.templ.edges) (chooses : Chooses env e.select (instanceWith p o.2) q)
    (checked : Checked env (some q) (scopeOf tas p) e.assign) (faithful : FaithfulUpdate env (some q) e.assign)
    {text : String} (printed : translateAssignment env (some q) e.assign (prefixOf env p o.2) = .ok text)
    {F : State V → Option (State V)} (executes : Executes A env (some q) e.assign F)
    (stored : ∀ s ∈ ss, Stored env (prefixOf env p o.2) (scopeOf tas p) s)
    (performs : Performs env (some q) (prefixOf env p o.2) (scopeOf tas p) e.assign ss) :
    Option.Rel (SameData A env tas) ((F (view env o S)).map (put env o S)) (runAll A ss τ) := by
  have bounds := layered.bounds o p lives e member q chooses
  have carried : Carried A env (some q) (prefixOf env p o.2) (scopeOf tas p) (view env o S) τ :=
    ⟨layered.constants o p lives e member q chooses _ (same.constants o p lives),
      (same.carries o p lives).ofBounds bounds⟩
  have outcome := performs V A F executes _ _ carried
  generalize leads : F (view env o S) = result at outcome
  generalize run : runAll A ss τ = result' at outcome
  cases outcome with
  | none => exact .none
  | @some σ' τ' carried' =>
  have carries := carried'.carries.ofBounds bounds.symm
  refine .some ⟨?_, ?_, ?_⟩
  · intro o' p' lives'
    refine givesConstants_of_same (same.constants o' p' lives') fun c constant indices => ?_
    exact view_put_same (constants_of_executes checked faithful printed executes leads constant indices)
  · intro o' p' lives'
    by_cases differ : o' = o
    · subst differ
      rw [view_put, lives'.unique scopes.toDistinctSymbols lives]
      exact carries
    · exact carries_other scopes apart layered same lives lives' differ stored run carries
  · intro o' p' lives' c inside clocks indices some'
    exact same.clocks o' p' lives' c inside clocks indices
      (exists_of_view_put (exists_of_executes executes leads) some')

end

end Utot
