import Mathlib.Data.List.Nodup
import Utot.Parameters.Levels

/-!
# Chains of instantiations

How the parser library builds the mapping of an instance, from the template over
the instances that refine it, and what the translator adds: the values of the
parameters that are left and of the select variables of an edge.
-/

namespace Utot

open Utap Library

/-! ## Building an instance -/

/-- The symbols with what they are bound to. -/
def bindArguments (m : Mapping) (bindings : Level) : Mapping :=
  bindings.foldl (fun m b => m.insert b.1 b.2) m

/-- `TimedAutomataSystem::addInstance`: the open parameters of `p` are bound, and the
new parameters are open. -/
def addInstance (uid : Symbol) (p : Instance) (parameters : List Symbol) (arguments : List Expr) :
    Instance :=
  { uid, parameters := parameters ++ p.parameters
    mapping := bindArguments p.mapping ((p.parameters.take p.unbound).zip arguments)
    unbound := parameters.length, templ := p.templ }

/-- The instance has been built from a template in steps, each of which binds the
parameters that were open to expressions over its own parameters and global symbols. -/
inductive Chain (isGlobal : Symbol → Prop) : Instance → List Level → Prop where
  | template {p : Instance} (plain : ∀ s : Symbol, p.mapping[s]? = none)
      (isOpen : p.unbound = p.parameters.length) (distinct : p.parameters.Nodup)
      (inside : ∀ s ∈ p.parameters, ¬ isGlobal s) : Chain isGlobal p []
  | refined {p : Instance} {levels : List Level} (uid : Symbol) {parameters : List Symbol}
      {arguments : List Expr} (before : Chain isGlobal p levels) (count : arguments.length = p.unbound)
      (distinct : parameters.Nodup) (fresh : ∀ s ∈ parameters, s ∉ p.parameters ∧ ¬ isGlobal s)
      (visible : ∀ e ∈ arguments, ∀ x ∈ e.symbols, x ∈ parameters ∨ isGlobal x) :
      Chain isGlobal (addInstance uid p parameters arguments)
        (levels ++ [(p.parameters.take p.unbound).zip arguments])

/-- Symbols with values. -/
def valueLevel (symbols : List Symbol) (values : List Int) : Level :=
  symbols.zip (values.map Expr.createConstant)

/-- All levels below an edge: its select variables, the steps of the instantiation, and
the parameters that are left. -/
def allLevels (p : Instance) (levels : List Level) (values : List Int) (select : List Symbol)
    (picked : List Int) : List Level :=
  valueLevel select picked :: (levels ++ [valueLevel (openParameters p) values])

/-! ## Lookups -/

section

variable {symbols : List Symbol} {s : Symbol}

theorem lookup_zip_eq_none {arguments : List Expr} (count : arguments.length = symbols.length) :
    (symbols.zip arguments).lookup s = none ↔ s ∉ symbols := by
  rw [List.lookup_eq_none_iff]
  have keys : (symbols.zip arguments).map Prod.fst = symbols :=
    List.map_fst_zip (Nat.le_of_eq count.symm)
  constructor
  · intro free inside
    rw [← keys] at inside
    obtain ⟨binding, listed, rfl⟩ := List.mem_map.mp inside
    simpa using free binding listed
  · intro outside binding listed
    have key : binding.1 ∈ symbols := by
      rw [← keys]
      exact List.mem_map_of_mem listed
    simpa using fun same : s = binding.1 => outside (same ▸ key)

/-- Every parameter is bound once, so that the order of the bindings is of no account. -/
theorem lookup_bindArguments {bindings : Level} (distinct : (bindings.map Prod.fst).Nodup)
    (m : Mapping) : (bindArguments m bindings)[s]? = (bindings.lookup s).or m[s]? := by
  induction bindings generalizing m with
  | nil => rfl
  | cons binding rest ih =>
      obtain ⟨fresh, distinct⟩ := List.nodup_cons.mp distinct
      change (bindArguments (m.insert binding.1 binding.2) rest)[s]? = _
      rw [ih distinct, List.lookup_cons, Std.TreeMap.getElem?_insert]
      by_cases same : s = binding.1
      · subst same
        have behind : rest.lookup binding.1 = none := by
          rw [List.lookup_eq_none_iff]
          intro other listed
          simpa using fun same : binding.1 = other.1 => fresh (same ▸ List.mem_map_of_mem listed)
        rw [behind, Option.none_or, if_pos (Std.compare_eq_iff_eq.mpr rfl), beq_self_eq_true]
        rfl
      · rw [if_neg fun equal => same (Std.compare_eq_iff_eq.mp equal).symm, beq_false_of_ne same]

theorem lookup_valueLevel {values : List Int} (count : values.length = symbols.length) (k : Nat)
    (distinct : symbols.Nodup) {i : Int} (symbol : symbols[k]? = some s) (value : values[k]? = some i) :
    (valueLevel symbols values).lookup s = some (Expr.createConstant i) := by
  induction symbols generalizing values k with
  | nil => cases symbol
  | cons first rest ih =>
      obtain ⟨fresh, distinct⟩ := List.nodup_cons.mp distinct
      cases values with
      | nil => cases count
      | cons v values =>
          change ((first, Expr.createConstant v) :: valueLevel rest values).lookup s = _
          cases k with
          | zero =>
              cases symbol
              cases value
              rw [List.lookup_cons_self]
          | succ k =>
              have other : s ≠ first := by
                rintro rfl
                exact fresh (List.mem_of_getElem? symbol)
              rw [List.lookup_cons, beq_false_of_ne other]
              exact ih (Nat.succ.inj count) k distinct symbol value

/-- What an enumeration has bound is what it has bound and what was bound before. -/
theorem lookup_boundTo {p q : Instance} {values : List Int} (distinct : symbols.Nodup)
    (bound : BoundTo p symbols values q) :
    q.mapping[s]? = ((valueLevel symbols values).lookup s).or p.mapping[s]? := by
  by_cases listed : s ∈ symbols
  · obtain ⟨k, position, found⟩ := List.getElem_of_mem listed
    have symbol : symbols[k]? = some s := by rw [List.getElem?_eq_getElem position, found]
    have inRange : k < values.length := bound.count ▸ position
    have value : values[k]? = some values[k] := List.getElem?_eq_getElem inRange
    rw [bound.bound k s _ symbol value, lookup_valueLevel bound.count k distinct symbol value,
      Option.some_or]
  · have free : (valueLevel symbols values).lookup s = none :=
      (lookup_zip_eq_none (by rw [List.length_map, bound.count])).mpr listed
    rw [bound.kept s listed, free, Option.none_or]

/-! ## The levels of a chain -/

/-- What a step has bound: parameters of the chain that are no longer open. -/
structure Built (isGlobal : Symbol → Prop) (p : Instance) (levels : List Level) : Prop where
  distinct : p.parameters.Nodup
  isOpen : p.unbound ≤ p.parameters.length
  inside : ∀ s ∈ p.parameters, ¬ isGlobal s
  keys : ∀ level ∈ levels, ∀ binding ∈ level, binding.1 ∈ p.parameters.drop p.unbound
  visible : ∀ level ∈ levels, ∀ binding ∈ level, ∀ x ∈ binding.2.symbols,
    x ∈ p.parameters ∨ isGlobal x
  layered : Layered levels
  lookup : ∀ s : Symbol, p.mapping[s]? = levels.flatten.lookup s

variable {isGlobal : Symbol → Prop} {p : Instance} {levels : List Level}

theorem Built.free (built : Built isGlobal p levels) {level : Level} (listed : level ∈ levels)
    (outside : s ∉ p.parameters.drop p.unbound) : level.lookup s = none := by
  rw [List.lookup_eq_none_iff]
  intro binding inside
  have key := built.keys level listed binding inside
  simpa using fun same : s = binding.1 => outside (same ▸ key)

theorem Built.flatten_free (built : Built isGlobal p levels)
    (outside : s ∉ p.parameters.drop p.unbound) : levels.flatten.lookup s = none := by
  cases found : levels.flatten.lookup s with
  | none => rfl
  | some argument =>
      obtain ⟨level, listed, inside⟩ := List.mem_flatten.mp (mem_of_lookup found)
      exact absurd (built.keys level listed _ inside) outside

/-- What is open is not bound by an earlier step. -/
theorem Built.not_bound (built : Built isGlobal p levels) (isOpen : s ∈ p.parameters.take p.unbound) :
    s ∉ p.parameters.drop p.unbound := by
  have distinct := built.distinct
  rw [← List.take_append_drop p.unbound p.parameters, List.nodup_append] at distinct
  intro bound
  exact distinct.2.2 s isOpen s bound rfl

theorem Chain.built (chain : Chain isGlobal p levels) : Built isGlobal p levels := by
  induction chain with
  | template plain isOpen distinct inside =>
      refine ⟨distinct, Nat.le_of_eq isOpen, inside, ?_, ?_, ⟨.nil, ?_⟩, plain⟩
      · intro level listed
        cases listed
      · intro level listed
        cases listed
      · intro level listed
        cases listed
  | @refined p levels uid parameters arguments before count distinct fresh visible ih =>
      have isOpen : (p.parameters.take p.unbound).length = arguments.length := by
        rw [List.length_take_of_le ih.isOpen, count]
      have keys : ((p.parameters.take p.unbound).zip arguments).map Prod.fst =
          p.parameters.take p.unbound := List.map_fst_zip (Nat.le_of_eq isOpen)
      have rest : (parameters ++ p.parameters).drop parameters.length = p.parameters := List.drop_left
      have argument {binding : Symbol × Expr}
          (listed : binding ∈ (p.parameters.take p.unbound).zip arguments) :
          ∀ x ∈ binding.2.symbols, x ∈ parameters ∨ isGlobal x :=
        visible binding.2 (List.of_mem_zip listed).2
      have outside {x : Symbol} (seen : x ∈ parameters ∨ isGlobal x) : x ∉ p.parameters := by
        rcases seen with own | isGlobal
        · exact (fresh x own).1
        · exact fun inside => ih.inside x inside isGlobal
      have disjoint : List.Disjoint parameters p.parameters := fun s own => (fresh s own).1
      have open' {s : Symbol} (bound : s ∈ (p.parameters.take p.unbound)) : s ∈ p.parameters :=
        List.mem_of_mem_take bound
      refine ⟨?_, ?_, ?_, ?_, ?_, ?_, ?_⟩
      · exact distinct.append ih.distinct disjoint
      · exact Nat.le_trans (Nat.le_add_right _ _) (Nat.le_of_eq List.length_append.symm)
      · intro s inside
        rcases List.mem_append.mp inside with own | before
        · exact (fresh s own).2
        · exact ih.inside s before
      · intro level listed binding inside
        change binding.1 ∈ (parameters ++ p.parameters).drop parameters.length
        rw [rest]
        rcases List.mem_append.mp listed with listed | listed
        · exact List.mem_of_mem_drop (ih.keys level listed binding inside)
        · rw [List.mem_singleton.mp listed] at inside
          exact open' (List.of_mem_zip inside).1
      · intro level listed binding inside x symbol
        change x ∈ parameters ++ p.parameters ∨ _
        rcases List.mem_append.mp listed with listed | listed
        · exact (ih.visible level listed binding inside x symbol).imp_left (List.mem_append_right _)
        · rw [List.mem_singleton.mp listed] at inside
          exact (argument inside x symbol).imp_left (List.mem_append_left _)
      · refine layered_append ih.layered ?_ ?_
        · intro binding inside x symbol
          rw [lookup_zip_eq_none isOpen.symm]
          exact fun bound => outside (argument inside x symbol) (open' bound)
        · intro other listed binding inside x symbol
          refine ih.free listed fun bound => ?_
          exact outside (argument inside x symbol) (List.mem_of_mem_drop bound)
      · intro s
        change (bindArguments p.mapping _)[s]? = _
        have once : (((p.parameters.take p.unbound).zip arguments).map Prod.fst).Nodup := by
          rw [keys]
          exact ih.distinct.sublist (List.take_sublist _ _)
        rw [lookup_bindArguments once, List.flatten_append, List.lookup_append, List.flatten_singleton,
          ih.lookup]
        by_cases bound : s ∈ p.parameters.take p.unbound
        · rw [ih.flatten_free (ih.not_bound bound), Option.or_none, Option.none_or]
        · rw [(lookup_zip_eq_none isOpen.symm).mpr bound, Option.none_or, Option.or_none]

/-! ## Below an edge -/

theorem symbols_of_valueLevel {symbols : List Symbol} {values : List Int} {binding : Symbol × Expr}
    (listed : binding ∈ valueLevel symbols values) : binding.2.symbols = [] := by
  obtain ⟨i, _, same⟩ := List.mem_map.mp (List.of_mem_zip listed).2
  rw [← same]
  rfl

theorem apart_valueLevel {symbols : List Symbol} {values : List Int} (level : Level) :
    ApartFrom level (valueLevel symbols values) := by
  intro binding listed x inside
  rw [symbols_of_valueLevel listed] at inside
  cases inside

variable {values : List Int} {select : List Symbol} {picked : List Int}

/-- The select variables of an edge, in a frame of their own. -/
structure FreshSelect (isGlobal : Symbol → Prop) (p : Instance) (select : List Symbol) : Prop where
  distinct : select.Nodup
  fresh : ∀ s ∈ select, s ∉ p.parameters ∧ ¬ isGlobal s

theorem Chain.layered (chain : Chain isGlobal p levels) (fresh : FreshSelect isGlobal p select)
    (counted : picked.length = select.length) : Layered (allLevels p levels values select picked) := by
  have built := chain.built
  have body : Layered (levels ++ [valueLevel (openParameters p) values]) :=
    layered_append built.layered (apart_valueLevel _) fun other _ => apart_valueLevel other
  have count : (picked.map Expr.createConstant).length = select.length := by
    rw [List.length_map, counted]
  constructor
  · refine List.pairwise_cons.mpr ⟨?_, body.later⟩
    intro other listed binding inside x symbol
    rw [valueLevel, lookup_zip_eq_none count]
    intro selected
    rcases List.mem_append.mp listed with listed | listed
    · rcases built.visible other listed binding inside x symbol with own | isGlobal
      · exact (fresh.fresh x selected).1 own
      · exact (fresh.fresh x selected).2 isGlobal
    · rw [List.mem_singleton.mp listed] at inside
      rw [symbols_of_valueLevel inside] at symbol
      cases symbol
  · intro other listed
    rcases List.mem_cons.mp listed with rfl | listed
    · exact apart_valueLevel _
    · exact body.own other listed

/-- The mapping below an edge is flat: it binds what some level binds. -/
theorem Chain.lookup (chain : Chain isGlobal p levels) (fresh : FreshSelect isGlobal p select)
    (count : values.length = (openParameters p).length) (counted : picked.length = select.length)
    (s : Symbol) :
    mapped? (some (bindTuple bindConstant select (instanceWith p values) picked)) s =
      (allLevels p levels values select picked).flatten.lookup s := by
  have built := chain.built
  have openDistinct : (openParameters p).Nodup :=
    List.nodup_reverse.mpr (built.distinct.sublist (List.take_sublist _ _))
  have instantiated : BoundTo p (openParameters p) values (instanceWith p values) :=
    boundTo_instance openDistinct count
  have inner := @lookup_boundTo _ s _ _ _ openDistinct instantiated
  have outer := @lookup_boundTo _ s _ _ _ fresh.distinct
    (boundTo_bindTuple fresh.distinct (instanceWith p values) counted)
  change (bindTuple bindConstant select (instanceWith p values) picked).mapping[s]? = _
  rw [outer, inner, built.lookup, allLevels, List.flatten_cons, List.lookup_append,
    List.flatten_append, List.lookup_append, List.flatten_singleton]
  congr 1
  by_cases isOpen : s ∈ openParameters p
  · have bound := built.not_bound (List.mem_reverse.mp isOpen)
    rw [built.flatten_free bound, Option.or_none, Option.none_or]
  · have none : (valueLevel (openParameters p) values).lookup s = none :=
      (lookup_zip_eq_none (by rw [List.length_map, count])).mpr isOpen
    rw [none, Option.none_or, Option.or_none]

end

end Utot
