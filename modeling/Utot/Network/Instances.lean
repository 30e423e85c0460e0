import Utot.Meaning.Declared
import Utot.Meaning.Guards
import Utot.Names.Entities
import Utot.Run.Enumeration
import Utot.Uppaal.Network

/-!
# The components on both sides

The instances of a model and the values of select variables are what the loops
run through, provided the bounds of what is enumerated are known at compile
time.  A process of the output is named after one instance.
-/

namespace Utot

open Utap Uppaal Library Tchecker

/-! ## Ranges -/

/-- The bounds of a variable that is enumerated are known at compile time. -/
structure Enumerable (env : Env) (p : Instance) (s : Symbol) : Prop where
  bounds : ∀ x ∈ boundsOf (env.getType s), Knowable env (some p) x
  evaluated : ∃ range, enumerationBounds env p s = .ok range

/-- Each of the variables has bounds that are known once those in front of it have a value. -/
def EnumerableAll (env : Env) : List Symbol → Instance → Prop
  | [], _ => True
  | s :: rest, p => Enumerable env p s ∧ ∀ i, InRange env p s i → EnumerableAll env rest (bindConstant p s i)

section

variable {env : Env} {tas : TimedAutomataSystem} {p q r : Instance}

theorem indexRange_of_enumerationBounds {s : Symbol} {min max : Int}
    (known : ∀ x ∈ boundsOf (env.getType s), Knowable env (some p) x)
    (bounds : enumerationBounds env p s = .ok (min, max)) :
    IndexRange env (some p) (env.getType s) (min, max) := by
  unfold enumerationBounds at bounds
  dsimp only at bounds
  split at bounds
  · cases bounds
  · obtain ⟨⟨lower, upper⟩, ranged, bounds⟩ := Res.bind_eq_ok.mp bounds
    obtain ⟨least, first, bounds⟩ := Res.bind_eq_ok.mp bounds
    obtain ⟨greatest, second, bounds⟩ := Res.bind_eq_ok.mp bounds
    cases bounds
    obtain ⟨inLower, inUpper⟩ := mem_boundsOf (orAssert_eq_ok.mp ranged)
    exact ⟨lower, upper, orAssert_eq_ok.mp ranged, (known lower inLower).evaluates first,
      (known upper inUpper).evaluates second⟩

theorem Enumerable.mem_iff {s : Symbol} (known : Enumerable env p s) {i : Int} :
    i ∈ rangeOf env s p ↔ InRange env p s i := by
  rw [mem_rangeOf]
  constructor
  · rintro ⟨min, max, bounds, lower, upper⟩
    exact ⟨(min, max), indexRange_of_enumerationBounds known.bounds bounds, lower, upper⟩
  · rintro ⟨range, ranged, lower, upper⟩
    obtain ⟨⟨min, max⟩, bounds⟩ := known.evaluated
    have same := indexRange_unique ranged
      (indexRange_of_enumerationBounds known.bounds bounds)
    subst same
    exact ⟨min, max, bounds, lower, upper⟩

/-- The loops over select variables make the choices of the model. -/
theorem selects_iff_chooses {select : List Symbol} (known : EnumerableAll env select r) :
    Selects env select r q ↔ Chooses env select r q := by
  constructor
  · intro selects
    induction selects with
    | done => exact .done
    | bind bounds lower upper _ ih =>
        have inside := known.1.mem_iff.mp (mem_rangeOf.mpr ⟨_, _, bounds, lower, upper⟩)
        exact .choose inside (ih (known.2 _ inside))
  · intro chooses
    induction chooses with
    | done => exact .done _
    | choose inside _ ih =>
        obtain ⟨min, max, bounds, lower, upper⟩ := mem_rangeOf.mp (known.1.mem_iff.mpr inside)
        exact .bind bounds lower upper (ih (known.2 _ inside))

/-! ## Instances -/

/-- The ranges of all that is enumerated are known. -/
structure RangesKnown (env : Env) (tas : TimedAutomataSystem) : Prop where
  enough : ∀ p ∈ tas.processes, p.unbound ≤ p.parameters.length
  parameters : ∀ p ∈ tas.processes, ∀ s ∈ openParameters p, Enumerable env p s
  selects : ∀ o p, Lives env tas o p → ∀ e ∈ p.templ.edges,
    EnumerableAll env e.select (instanceWith p o.2)

variable (ranges : RangesKnown env tas) {o o' : Owner}

include ranges

theorem mem_instanceValues (listed : p ∈ tas.processes) {values : List Int} :
    values ∈ instanceValues env p ↔ ValuesOf env p values := by
  have known := ranges.parameters p listed
  rw [instanceValues, mem_products]
  unfold InProduct ValuesOf
  rw [List.forall₂_iff_get, List.forall₂_iff_get]
  refine and_congr_right fun _ => forall_congr' fun k => forall_congr' fun inside =>
    forall_congr' fun _ => ?_
  rw [← (known _ (List.get_mem _ _)).mem_iff, mem_rangeOf]

theorem instanceOf_lives (lives : Lives env tas o p) :
    InstanceOf env p (prefixOf env p o.2) (instanceWith p o.2) :=
  instanceOf_iff.mpr ⟨ranges.enough p lives.listed, o.2,
    (mem_instanceValues ranges lives.listed).mpr lives.values, rfl, rfl⟩

theorem lives_of_instance (listed : p ∈ tas.processes) {ctx : ContextPrefix}
    (inst : InstanceOf env p ctx r) : ∃ o, Lives env tas o p ∧ ctx = prefixOf env p o.2 ∧
      r = instanceWith p o.2 := by
  obtain ⟨_, values, inRanges, names, bound⟩ := instanceOf_iff.mp inst
  exact ⟨(p.uid, values), ⟨listed, rfl, (mem_instanceValues ranges listed).mp inRanges⟩, names, bound⟩

/-- What is visited are the edges of the instances with their choices. -/
theorem visit_iff {ctx : ContextPrefix} {e : Edge} : Visit env tas.processes ctx q e ↔
    ∃ o p, Lives env tas o p ∧ ctx = prefixOf env p o.2 ∧ e ∈ p.templ.edges ∧
      Chooses env e.select (instanceWith p o.2) q := by
  constructor
  · rintro ⟨p, listed, r, inst, member, selects⟩
    obtain ⟨o, lives, rfl, rfl⟩ := lives_of_instance ranges listed inst
    exact ⟨o, p, lives, rfl, member,
      (selects_iff_chooses (ranges.selects o p lives e member)).mp selects⟩
  · rintro ⟨o, p, lives, rfl, member, chooses⟩
    exact ⟨p, lives.listed, _, instanceOf_lives ranges lives, member,
      (selects_iff_chooses (ranges.selects o p lives e member)).mpr chooses⟩

end

/-! ## Names of instances -/

/-- The process of the output is named after the instance. -/
def Names (env : Env) (tas : TimedAutomataSystem) (o : Owner) (process : String) : Prop :=
  ∃ p, Lives env tas o p ∧ process = instanceName env p o.2

section

variable {env : Env} {tas : TimedAutomataSystem} {p p' : Instance} {o o' : Owner}
  {process process' : String}

theorem Uppaal.Lives.count (lives : Lives env tas o p) : o.2.length = (openParameters p).length :=
  lives.values.length_eq.symm

variable (distinct : DistinctSymbols tas)

include distinct

theorem Uppaal.Lives.unique (lives : Lives env tas o p) (lives' : Lives env tas o p') : p = p' :=
  distinct.byUid p lives.listed p' lives'.listed (lives.uid.symm.trans lives'.uid)

theorem names_unique (named : Names env tas o process) (named' : Names env tas o process') :
    process = process' := by
  obtain ⟨p, lives, rfl⟩ := named
  obtain ⟨p', lives', rfl⟩ := named'
  rw [lives.unique distinct lives']

/-- A name belongs to one instance. -/
theorem owner_unique (apart : NamesUnconfused env tas) (named : Names env tas o process)
    (named' : Names env tas o' process) : o = o' := by
  obtain ⟨p, lives, rfl⟩ := named
  obtain ⟨p', lives', same⟩ := named'
  rcases process_same distinct lives.listed lives'.listed lives.count lives'.count same with
    ⟨uids, values⟩ | ⟨differ, confused⟩
  · exact Prod.ext (lives.uid.trans (uids.trans lives'.uid.symm)) values
  · refine absurd confused (apart.globals _ ?_ _ ?_ differ)
    · exact List.mem_append_right _ (List.mem_map_of_mem lives.listed)
    · exact List.mem_append_right _ (List.mem_map_of_mem lives'.listed)

end

/-! ## Names of variables -/

/-- The variables an instance of the process sees; the first global one is the
clock of the parser library. -/
def scopeOf (tas : TimedAutomataSystem) (p : Instance) : List Symbol :=
  tas.globals.vars.tail ++ p.templ.vars

section

variable {env : Env} {tas : TimedAutomataSystem} {p p' : Instance} {o o' : Owner} {c c' : Symbol}

theorem mem_scopeOf : c ∈ scopeOf tas p ↔ c ∈ tas.globals.vars.tail ∨ c ∈ p.templ.vars :=
  List.mem_append

/-- What an instance sees is named after the cell. -/
theorem named_of_scope (scopes : Scoped env tas) (lives : Lives env tas o p) (inside : c ∈ scopeOf tas p)
    (indices : List Int) : Named env tas (cellAt env o c indices)
      (cellName (symbolName env (prefixOf env p o.2) c) indices.reverse) := by
  have owner : o = (p.uid, o.2) := Prod.ext lives.uid rfl
  rcases mem_scopeOf.mp inside with global | inTemplate
  · have declared := List.mem_of_mem_tail global
    rw [cellAt, symbolName, scopes.globals c declared]
    exact .inGlobals declared indices
  · rw [cellAt, symbolName, scopes.locals p lives.listed c inTemplate, if_pos rfl, if_pos rfl, owner]
    exact .inInstance lives.listed lives.count inTemplate indices

theorem cellOf_eq_cellAt (uid : o.1 = p.uid) (indices : List Int) :
    cellOf env p o.2 c indices = cellAt env o c indices := by
  unfold cellOf cellAt
  rw [← uid]

theorem toList_global (scopes : Scoped env tas) (global : c ∈ tas.globals.vars) (ctx : ContextPrefix) :
    (symbolName env ctx c).toList = (env.getName c).toList := by
  rw [symbolName, scopes.globals c global]
  rfl

theorem toList_local (scopes : Scoped env tas) (lives : Lives env tas o p) (inTemplate : c ∈ p.templ.vars) :
    (symbolName env (prefixOf env p o.2) c).toList = (env.getName p.uid).toList ++
      (assignmentsText env (openParameters p) o.2 ++ '_' :: (env.getName c).toList) := by
  rw [symbolName, scopes.locals p lives.listed c inTemplate, if_pos rfl, prefixOf, toList_addPrefix]
  rfl

/-- Names that are not confused make no texts equal, whatever is behind them. -/
theorem append_ne_of_not_confused (apart : ¬ Confused env c c') {x y : List Char} (tail : IsTail '_' x)
    (tail' : IsTail '_' y) : (env.getName c).toList ++ x ≠ (env.getName c').toList ++ y :=
  (Decidable.not_not.mp apart).append_ne tail tail'

/-- Among what an instance sees no names are confused. -/
theorem variablesApart_of_scope (scopes : Scoped env tas) (apart : NamesUnconfused env tas)
    (lives : Lives env tas o p) : VariablesApart env (prefixOf env p o.2) (scopeOf tas p) := by
  have mixed {c c' : Symbol} (global : c ∈ tas.globals.vars) (inTemplate : c' ∈ p.templ.vars)
      {x y : List Char} (tail : IsTail '_' x) (tail' : IsTail '_' y) :
      (symbolName env (prefixOf env p o.2) c).toList ++ x ≠
        (symbolName env (prefixOf env p o.2) c').toList ++ y := by
    rw [toList_global scopes global, toList_local scopes lives inTemplate, List.append_assoc]
    have differ : c ≠ p.uid := by
      rintro rfl
      exact scopes.noVariable p lives.listed global
    refine append_ne_of_not_confused (apart.globals _ ?_ _ ?_ differ) tail ?_
    · exact List.mem_append_left _ global
    · exact List.mem_append_right _ (List.mem_map_of_mem lives.listed)
    · rw [List.append_assoc, List.cons_append]
      exact isTail_inInstance p o.2 _
  intro c inside c' inside' differ
  apply unconfused_of_append_ne
  intro x y tail tail'
  rcases mem_scopeOf.mp inside with global | inTemplate
  · have declared := List.mem_of_mem_tail global
    rcases mem_scopeOf.mp inside' with global' | inTemplate'
    · have declared' := List.mem_of_mem_tail global'
      rw [toList_global scopes declared, toList_global scopes declared']
      exact append_ne_of_not_confused (apart.globals _ (List.mem_append_left _ declared) _
        (List.mem_append_left _ declared') differ) tail tail'
    · exact mixed declared inTemplate' tail tail'
  · rcases mem_scopeOf.mp inside' with global' | inTemplate'
    · exact (mixed (List.mem_of_mem_tail global') inTemplate tail' tail).symm
    · rw [toList_local scopes lives inTemplate, toList_local scopes lives inTemplate']
      simp only [List.append_assoc, List.cons_append]
      intro same
      have rest := List.append_cancel_left (List.append_cancel_left same)
      exact append_ne_of_not_confused (apart.locals p lives.listed _ inTemplate _ inTemplate' differ)
        tail tail' (List.tail_eq_of_cons_eq rest)

end

end Utot
