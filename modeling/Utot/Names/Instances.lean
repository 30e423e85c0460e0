import Utot.Run.Visits
import Utot.Names.Texts

/-!
# Instances by the values of their open parameters

A process of the system and one value for each of its open parameters determine
an instance: its prefix, and the mapping that resolves its parameters.
-/

namespace Utot

open Utap Library

/-- The open parameters, in the order of the nested loops. -/
def openParameters (p : Instance) : List Symbol := (p.parameters.take p.unbound).reverse

/-- A mapping with symbols bound to constants. -/
def bindAll (m : Mapping) (bindings : List (Symbol × Int)) : Mapping :=
  bindings.foldl (fun m b => m.insert b.1 (Expr.createConstant b.2)) m

/-- The prefix of an instance. -/
def prefixOf (env : Env) (p : Instance) (values : List Int) : ContextPrefix :=
  env.getName p.uid :: List.zipWith (sAssignmentToString env) (openParameters p) values

/-- The instance with the open parameters bound. -/
def instanceWith (p : Instance) (values : List Int) : Instance :=
  mergeMapping p (bindAll p.mapping ((openParameters p).zip values))

theorem instantiates_values {env : Env} {p : Instance} {n : Nat} {ctx ctx' : ContextPrefix}
    {m m' : Mapping} (inst : Instantiates env p n ctx m ctx' m') :
    ∃ values : List Int, values.length = (p.parameters.take n).reverse.length ∧
      ctx' = ctx ++ List.zipWith (sAssignmentToString env) (p.parameters.take n).reverse values ∧
      m' = bindAll m ((p.parameters.take n).reverse.zip values) := by
  induction inst with
  | done ctx m => exact ⟨[], by simp, by simp, by simp [bindAll]⟩
  | @bind n s ctx ctx' m m' min max i parameter _ _ _ _ ih =>
      obtain ⟨values, count, names, bound⟩ := ih
      have next : (p.parameters.take (n + 1)).reverse = s :: (p.parameters.take n).reverse := by
        rw [List.take_add_one, parameter]
        simp
      refine ⟨i :: values, ?_, ?_, ?_⟩
      · rw [next, List.length_cons, List.length_cons, count]
      · rw [names, next, List.zipWith_cons_cons, List.append_assoc, List.singleton_append]
      · rw [bound, next]
        rfl

/-- Every instance comes from values of the open parameters. -/
theorem instanceOf_values {env : Env} {p q : Instance} {ctx : ContextPrefix}
    (inst : InstanceOf env p ctx q) : ∃ values : List Int, values.length = (openParameters p).length ∧
      ctx = prefixOf env p values ∧ q = instanceWith p values := by
  obtain ⟨m, inst, rfl⟩ := inst
  obtain ⟨values, count, names, bound⟩ := instantiates_values inst
  exact ⟨values, count, names, by rw [instanceWith, openParameters, bound]⟩

/-! ## What symbols are bound to -/

/-- `later` binds what `first` binds, or binds to a constant. -/
def Refines (first later : Mapping) : Prop :=
  ∀ s : Symbol, later[s]? = first[s]? ∨ ∃ i, later[s]? = some (Expr.createConstant i)

theorem Refines.insert {first later : Mapping} (refines : Refines first later) (s : Symbol)
    (i : Int) : Refines first (later.insert s (Expr.createConstant i)) := by
  intro s'
  rw [Std.TreeMap.getElem?_insert]
  split
  · exact .inr ⟨i, rfl⟩
  · exact refines s'

theorem refines_bindAll (m : Mapping) (bindings : List (Symbol × Int)) :
    Refines m (bindAll m bindings) := by
  unfold bindAll
  have loop : ∀ later, Refines m later → Refines m
      (bindings.foldl (fun m b => m.insert b.1 (Expr.createConstant b.2)) later) := by
    induction bindings with
    | nil => exact fun later holds => holds
    | cons b rest ih => exact fun later holds => ih _ (holds.insert b.1 b.2)
  exact loop m fun s => .inl rfl

theorem refines_mergeMapping {p : Instance} {m : Mapping} (refines : Refines p.mapping m) :
    Refines p.mapping (mergeMapping p m).mapping := by
  unfold mergeMapping
  have loop : ∀ (entries : List (Symbol × Expr)) (later : Mapping),
      (∀ kv ∈ entries, m[kv.1]? = some kv.2) → Refines p.mapping later →
      Refines p.mapping (entries.foldl (fun m kv => m.insert kv.1 kv.2) later) := by
    intro entries
    induction entries with
    | nil => exact fun later _ holds => holds
    | cons kv rest ih =>
        intro later listed holds
        apply ih _ fun entry member => listed entry (List.mem_cons_of_mem _ member)
        intro s
        rw [Std.TreeMap.getElem?_insert]
        split
        · rename_i same
          rw [← Std.compare_eq_iff_eq.mp same, ← listed kv List.mem_cons_self]
          exact refines kv.1
        · exact holds s
  exact loop _ _ (fun kv member => Std.TreeMap.mem_toList_iff_getElem?_eq_some.mp member)
    fun s => .inl rfl

theorem refines_instanceWith (p : Instance) (values : List Int) :
    Refines p.mapping (instanceWith p values).mapping :=
  refines_mergeMapping (refines_bindAll _ _)

theorem refines_selects {env : Env} {select : List Symbol} {p r q : Instance}
    (selects : Selects env select r q) (refines : Refines p.mapping r.mapping) :
    Refines p.mapping q.mapping := by
  induction selects with
  | done r => exact refines
  | bind _ _ _ _ ih => exact ih (refines.insert _ _)

/-! ## Every parameter is bound -/

theorem mem_bindAll {s : Symbol} {m : Mapping} {bindings : List (Symbol × Int)} :
    s ∈ bindAll m bindings ↔ s ∈ m ∨ ∃ b ∈ bindings, b.1 = s := by
  unfold bindAll
  induction bindings generalizing m with
  | nil => simp
  | cons b rest ih =>
      rw [List.foldl_cons, ih]
      simp only [Std.TreeMap.mem_insert, Std.compare_eq_iff_eq, List.mem_cons, exists_eq_or_imp]
      constructor
      · rintro ((same | before) | later)
        · exact .inr (.inl same)
        · exact .inl before
        · exact .inr (.inr later)
      · rintro (before | same | later)
        · exact .inl (.inr before)
        · exact .inl (.inl same)
        · exact .inr later

theorem mem_mergeMapping {s : Symbol} {p : Instance} {m : Mapping} (bound : s ∈ m) :
    s ∈ (mergeMapping p m).mapping := by
  unfold mergeMapping
  have loop : ∀ (entries : List (Symbol × Expr)) (later : Mapping),
      (s ∈ later ∨ ∃ kv ∈ entries, kv.1 = s) →
      s ∈ entries.foldl (fun m kv => m.insert kv.1 kv.2) later := by
    intro entries
    induction entries with
    | nil => simp
    | cons kv rest ih =>
        intro later inside
        apply ih
        rw [Std.TreeMap.mem_insert, Std.compare_eq_iff_eq]
        rcases inside with before | ⟨kv', member, same⟩
        · exact .inl (.inr before)
        · rcases List.mem_cons.mp member with rfl | later
          · exact .inl (.inl same)
          · exact .inr ⟨kv', later, same⟩
  apply loop
  right
  obtain ⟨value, found⟩ := Option.isSome_iff_exists.mp (Std.TreeMap.isSome_getElem?_iff_mem.mpr bound)
  exact ⟨(s, value), Std.TreeMap.mem_toList_iff_getElem?_eq_some.mpr found, rfl⟩

/-- In an instance the parameters of its process are bound. -/
theorem mem_instanceWith {p : Instance} {values : List Int} (count : values.length = (openParameters p).length)
    (closed : ∀ s ∈ p.parameters.drop p.unbound, s ∈ p.mapping) {s : Symbol}
    (parameter : s ∈ p.parameters) : s ∈ (instanceWith p values).mapping := by
  apply mem_mergeMapping
  rw [mem_bindAll]
  rw [← List.take_append_drop p.unbound p.parameters, List.mem_append] at parameter
  rcases parameter with front | back
  · right
    have listed : s ∈ openParameters p := List.mem_reverse.mpr front
    rw [← List.map_fst_zip count.ge, List.mem_map] at listed
    exact listed
  · exact .inl (closed s back)

theorem mem_selects {env : Env} {select : List Symbol} {r q : Instance}
    (selects : Selects env select r q) {s : Symbol} (bound : s ∈ r.mapping) : s ∈ q.mapping := by
  induction selects with
  | done r => exact bound
  | bind _ _ _ _ ih => exact ih (Std.TreeMap.mem_insert.mpr (.inr bound))

end Utot
