import Utot.Names.Instances

/-!
# Names of cells

Variables, clocks, channels and the cells of flattened arrays are named by one
scheme: the name of the symbol, behind the prefix of its process if it is
declared in a template, and the indices of the cell.  Two cells can only share a
name when `_` confuses two declared names of the model.
-/

namespace Utot

open Utap Library

/-- A cell of the model.  What a template declares exists once for each
instance, which a process and the values of its open parameters determine. -/
structure Cell where
  owner : Option (Symbol × List Int)
  symbol : Symbol
  indices : List Int
  deriving DecidableEq, Repr

namespace Cell

/-- The symbol whose name the name of the cell starts with. -/
def root (cell : Cell) : Symbol :=
  match cell.owner with
  | none => cell.symbol
  | some owner => owner.1

end Cell

/-- The name a cell has in the output. -/
inductive Named (env : Env) (tas : TimedAutomataSystem) : Cell → String → Prop where
  | inGlobals {c : Symbol} (declared : c ∈ tas.globals.vars) (indices : List Int) :
      Named env tas ⟨none, c, indices⟩ (cellName (addPrefix [] (env.getName c)) indices.reverse)
  | inInstance {p : Instance} (listed : p ∈ tas.processes) {values : List Int}
      (count : values.length = (openParameters p).length) {c : Symbol} (declared : c ∈ p.templ.vars)
      (indices : List Int) :
      Named env tas ⟨some (p.uid, values), c, indices⟩
        (cellName (addPrefix (prefixOf env p values) (env.getName c)) indices.reverse)

/-- Two names of which `_` makes one the beginning of the other, or equal names. -/
def Confused (env : Env) (a b : Symbol) : Prop :=
  ¬ Unconfused '_' (env.getName a).toList (env.getName b).toList

instance (env : Env) (a b : Symbol) : Decidable (Confused env a b) :=
  inferInstanceAs (Decidable (¬ Unconfused '_' (env.getName a).toList (env.getName b).toList))

/-- The symbols of processes differ from each other and from those of variables. -/
structure DistinctSymbols (tas : TimedAutomataSystem) : Prop where
  byUid : ∀ p ∈ tas.processes, ∀ p' ∈ tas.processes, p.uid = p'.uid → p = p'
  noVariable : ∀ p ∈ tas.processes, p.uid ∉ tas.globals.vars

/-- `_` confuses the names two cells start with, or those of two symbols of one
instance. -/
def CellsConfused (env : Env) (cell cell' : Cell) : Prop :=
  cell.root ≠ cell'.root ∧ Confused env cell.root cell'.root ∨
    cell.owner = cell'.owner ∧ cell.symbol ≠ cell'.symbol ∧ Confused env cell.symbol cell'.symbol

/-! ## Parts behind a name -/

/-- What is written behind the name of a symbol: an index, or the end of an event. -/
inductive Part where
  | index (value : Int)
  | emit
  | recv
  deriving DecidableEq, Repr

def partText : Part → List Char
  | .index value => intText value
  | .emit => "emit".toList
  | .recv => "recv".toList

theorem underscore_not_mem_partText (part : Part) : '_' ∉ partText part := by
  cases part with
  | index value => exact underscore_not_mem_intText value
  | emit => decide
  | recv => decide

theorem partText_injective (part part' : Part) (same : partText part = partText part') :
    part = part' := by
  have noEmit (i : Int) : intText i ≠ "emit".toList := fun text =>
    letter_not_mem_intText (by decide) (by decide) i (text ▸ (by decide : 'm' ∈ "emit".toList))
  have noRecv (i : Int) : intText i ≠ "recv".toList := fun text =>
    letter_not_mem_intText (by decide) (by decide) i (text ▸ (by decide : 'v' ∈ "recv".toList))
  cases part with
  | index i =>
      cases part' with
      | index j => rw [intText_injective i j same]
      | emit => exact absurd same (noEmit i)
      | recv => exact absurd same (noRecv i)
  | emit =>
      cases part' with
      | index j => exact absurd same.symm (noEmit j)
      | emit => rfl
      | recv => exact absurd same (by decide)
  | recv =>
      cases part' with
      | index j => exact absurd same.symm (noRecv j)
      | emit => exact absurd same (by decide)
      | recv => rfl

/-- The text of parts, each behind its `_`. -/
def partsText (parts : List Part) : List Char := joined '_' partText parts

theorem partsText_injective {parts parts' : List Part} (same : partsText parts = partsText parts') :
    parts = parts' :=
  joined_injective underscore_not_mem_partText partText_injective same

theorem isTail_partsText (parts : List Part) : IsTail '_' (partsText parts) := isTail_joined parts

theorem partsText_append (parts parts' : List Part) :
    partsText (parts ++ parts') = partsText parts ++ partsText parts' :=
  List.flatMap_append

theorem partsText_indices (indices : List Int) :
    partsText (indices.map .index) = joined '_' intText indices := by
  unfold partsText joined
  rw [List.flatMap_map]
  rfl

/-! ## Reading names back -/

/-- The text of a prefix behind the name of its process. -/
def assignmentsText (env : Env) (names : List Symbol) (values : List Int) : List Char :=
  joined '_' String.toList (List.zipWith (sAssignmentToString env) names values)

section

variable {env : Env} {tas : TimedAutomataSystem} {cell cell' : Cell} {s : String}

/-- The values of parameters can be read back from a prefix. -/
theorem assignmentsText_injective {names : List Symbol} {values values' : List Int}
    {x y : List Char} (count : values.length = names.length)
    (count' : values'.length = names.length) (tail : IsTail '_' x) (tail' : IsTail '_' y)
    (same : assignmentsText env names values ++ x = assignmentsText env names values' ++ y) :
    values = values' ∧ x = y := by
  induction names generalizing values values' with
  | nil =>
      rw [List.length_nil, List.length_eq_zero_iff] at count count'
      subst count count'
      exact ⟨rfl, same⟩
  | cons name rest ih =>
      cases values with
      | nil => cases count
      | cons i values =>
          cases values' with
          | nil => cases count'
          | cons j values' =>
              have text (k : Int) (ks : List Int) (z : List Char) :
                  assignmentsText env (name :: rest) (k :: ks) ++ z =
                    ('_' :: (env.getName name).toList ++ ['_']) ++
                      (intText k ++ (assignmentsText env rest ks ++ z)) := by
                simp [assignmentsText, joined, toList_sAssignmentToString]
              rw [text, text] at same
              obtain ⟨first, later⟩ := part_of_append_eq (List.append_cancel_left same)
                (underscore_not_mem_intText i) (underscore_not_mem_intText j)
                ((isTail_joined _).append tail) ((isTail_joined _).append tail')
              obtain ⟨values_eq, tails⟩ := ih (Nat.succ.inj count) (Nat.succ.inj count') later
              exact ⟨by rw [intText_injective i j first, values_eq], tails⟩

theorem toList_inGlobals (c : Symbol) (indices : List Int) :
    (cellName (addPrefix [] (env.getName c)) indices.reverse).toList =
      (env.getName c).toList ++ partsText (indices.map .index) := by
  rw [partsText_indices]
  exact toList_cellName _ _

theorem toList_inInstance (p : Instance) (values : List Int) (c : Symbol) (indices : List Int) :
    (cellName (addPrefix (prefixOf env p values) (env.getName c)) indices.reverse).toList =
      (env.getName p.uid).toList ++ (assignmentsText env (openParameters p) values ++
        '_' :: ((env.getName c).toList ++ partsText (indices.map .index))) := by
  rw [toList_cellName, prefixOf, toList_addPrefix, assignmentsText, partsText_indices]
  simp

theorem isTail_inInstance (p : Instance) (values : List Int) (rest : List Char) :
    IsTail '_' (assignmentsText env (openParameters p) values ++ '_' :: rest) :=
  (isTail_joined _).append (isTail_cons rest)

/-- A name starts with the name of its root. -/
theorem Named.text (named : Named env tas cell s) :
    ∃ tail, IsTail '_' tail ∧ s.toList = (env.getName cell.root).toList ++ tail := by
  cases named with
  | inGlobals declared indices => exact ⟨_, isTail_partsText _, toList_inGlobals _ _⟩
  | inInstance listed count declared indices =>
      exact ⟨_, isTail_inInstance _ _ _, toList_inInstance _ _ _ _⟩

/-- A cell without owner is global. -/
theorem Named.global (named : Named env tas cell s) (owner : cell.owner = none) :
    cell.symbol ∈ tas.globals.vars ∧
      s.toList = (env.getName cell.symbol).toList ++ partsText (cell.indices.map .index) := by
  cases named with
  | inGlobals declared indices => exact ⟨declared, toList_inGlobals _ _⟩
  | inInstance => cases owner

/-- A cell with an owner belongs to an instance of a process. -/
theorem Named.local {uid : Symbol} {values : List Int} (named : Named env tas cell s)
    (owner : cell.owner = some (uid, values)) :
    ∃ p ∈ tas.processes, p.uid = uid ∧ values.length = (openParameters p).length ∧
      cell.symbol ∈ p.templ.vars ∧ s.toList =
        (env.getName p.uid).toList ++ (assignmentsText env (openParameters p) values ++
          '_' :: ((env.getName cell.symbol).toList ++ partsText (cell.indices.map .index))) := by
  cases named with
  | inGlobals => cases owner
  | inInstance listed count declared indices =>
      cases owner
      exact ⟨_, listed, rfl, count, declared, toList_inInstance _ _ _ _⟩

/-- With more parts behind them, two names of one root belong to one owner, and
what follows the prefixes is the same. -/
theorem Named.owners (distinct : DistinctSymbols tas) {s' : String} (named : Named env tas cell s)
    (named' : Named env tas cell' s') (roots : cell.root = cell'.root) {parts parts' : List Part}
    (same : s.toList ++ partsText parts = s'.toList ++ partsText parts') :
    cell.owner = cell'.owner ∧
      (env.getName cell.symbol).toList ++ partsText (cell.indices.map .index ++ parts) =
        (env.getName cell'.symbol).toList ++ partsText (cell'.indices.map .index ++ parts') := by
  simp only [partsText_append, ← List.append_assoc]
  unfold Cell.root at roots
  cases owner : cell.owner with
  | none =>
      obtain ⟨declared, text⟩ := named.global owner
      cases owner' : cell'.owner with
      | none =>
          rw [text, (named'.global owner').2] at same
          exact ⟨rfl, same⟩
      | some other =>
          obtain ⟨p, listed, uid, _⟩ := named'.local owner'
          rw [owner, owner'] at roots
          rw [show cell.symbol = p.uid from roots.trans uid.symm] at declared
          exact absurd declared (distinct.noVariable p listed)
  | some own =>
      obtain ⟨p, listed, uid, count, _, text⟩ := named.local owner
      cases owner' : cell'.owner with
      | none =>
          rw [owner, owner'] at roots
          have declared := (named'.global owner').1
          rw [show cell'.symbol = p.uid from roots.symm.trans uid.symm] at declared
          exact absurd declared (distinct.noVariable p listed)
      | some other =>
          obtain ⟨p', listed', uid', count', _, text'⟩ := named'.local owner'
          rw [owner, owner'] at roots
          have uids : own.1 = other.1 := roots
          have one := distinct.byUid p listed p' listed' (uid.trans (uids.trans uid'.symm))
          subst one
          rw [text, text'] at same
          simp only [List.append_assoc, List.cons_append] at same
          obtain ⟨values, rest⟩ := assignmentsText_injective count count' (isTail_cons _)
            (isTail_cons _) (List.append_cancel_left same)
          refine ⟨by rw [Prod.ext uids values], ?_⟩
          simpa only [List.append_assoc] using List.tail_eq_of_cons_eq rest

/-- Two names with parts behind them only make one text if these parts and the
cells are the same, or `_` confuses the cells. -/
theorem Named.sameBehind (distinct : DistinctSymbols tas) {s' : String}
    (named : Named env tas cell s) (named' : Named env tas cell' s') {parts parts' : List Part}
    (same : s.toList ++ partsText parts = s'.toList ++ partsText parts') :
    cell.owner = cell'.owner ∧ cell.symbol = cell'.symbol ∧
      cell.indices.map Part.index ++ parts = cell'.indices.map Part.index ++ parts' ∨
      CellsConfused env cell cell' := by
  by_cases roots : cell.root = cell'.root
  · obtain ⟨owners, text⟩ := named.owners distinct named' roots same
    by_cases symbols : cell.symbol = cell'.symbol
    · rw [symbols] at text
      exact .inl ⟨owners, symbols, partsText_injective (List.append_cancel_left text)⟩
    · exact .inr (.inr ⟨owners, symbols, fun apart =>
        apart.append_ne (isTail_partsText _) (isTail_partsText _) text⟩)
  · obtain ⟨tail, isTail, text⟩ := named.text
    obtain ⟨tail', isTail', text'⟩ := named'.text
    rw [text, text', List.append_assoc, List.append_assoc] at same
    exact .inr (.inl ⟨roots, fun apart => apart.append_ne (isTail.append (isTail_partsText _))
      (isTail'.append (isTail_partsText _)) same⟩)

theorem Cell.eq_of_indices {parts : List Part} (owners : cell.owner = cell'.owner)
    (symbols : cell.symbol = cell'.symbol)
    (indices : cell.indices.map Part.index ++ parts = cell'.indices.map Part.index ++ parts) :
    cell = cell' := by
  have values := List.map_injective_iff.mpr (fun i j => Part.index.inj)
    (List.append_cancel_right indices)
  cases cell
  cases cell'
  cases owners
  cases symbols
  cases values
  rfl

/-- Two cells with one name are the same cell, or `_` confuses them. -/
theorem Named.same (distinct : DistinctSymbols tas) (named : Named env tas cell s)
    (named' : Named env tas cell' s) : cell = cell' ∨ CellsConfused env cell cell' := by
  have text : s.toList ++ partsText [] = s.toList ++ partsText [] := rfl
  rcases named.sameBehind distinct named' text with ⟨owners, symbols, indices⟩ | confused
  · exact .inl (Cell.eq_of_indices owners symbols indices)
  · exact .inr confused

/-- A cell has one name. -/
theorem Named.unique {s' : String} (distinct : DistinctSymbols tas) (named : Named env tas cell s)
    (named' : Named env tas cell s') : s = s' := by
  rw [← String.toList_inj]
  cases owner : cell.owner with
  | none => rw [(named.global owner).2, (named'.global owner).2]
  | some own =>
      obtain ⟨p, listed, uid, _, _, text⟩ := named.local owner
      obtain ⟨p', listed', uid', _, _, text'⟩ := named'.local owner
      have one := distinct.byUid p listed p' listed' (uid.trans uid'.symm)
      subst one
      rw [text, text']

/-- No two names of the global scope, and no two of one template, are confused. -/
structure NamesUnconfused (env : Env) (tas : TimedAutomataSystem) : Prop where
  globals : ∀ a ∈ tas.globals.vars ++ tas.processes.map Instance.uid,
    ∀ b ∈ tas.globals.vars ++ tas.processes.map Instance.uid, a ≠ b → ¬ Confused env a b
  locals : ∀ p ∈ tas.processes, ∀ a ∈ p.templ.vars, ∀ b ∈ p.templ.vars, a ≠ b → ¬ Confused env a b

theorem Named.root_mem (named : Named env tas cell s) :
    cell.root ∈ tas.globals.vars ++ tas.processes.map Instance.uid := by
  cases named with
  | inGlobals declared => exact List.mem_append_left _ declared
  | inInstance listed => exact List.mem_append_right _ (List.mem_map_of_mem listed)

/-- Where names are not confused, different cells have different names. -/
theorem NamesUnconfused.cell_eq (apart : NamesUnconfused env tas) (distinct : DistinctSymbols tas)
    (named : Named env tas cell s) (named' : Named env tas cell' s) : cell = cell' := by
  rcases named.same distinct named' with same | ⟨differ, confused⟩ | ⟨owners, differ, confused⟩
  · exact same
  · exact absurd confused (apart.globals _ named.root_mem _ named'.root_mem differ)
  · cases owner : cell.owner with
    | none =>
        refine absurd confused (apart.globals _ ?_ _ ?_ differ)
        · exact List.mem_append_left _ (named.global owner).1
        · exact List.mem_append_left _ (named'.global (owners.symm.trans owner)).1
    | some own =>
        obtain ⟨p, listed, uid, _, declared, _⟩ := named.local owner
        obtain ⟨p', listed', uid', _, declared', _⟩ := named'.local (owners.symm.trans owner)
        have one := distinct.byUid p listed p' listed' (uid.trans uid'.symm)
        subst one
        exact absurd confused (apart.locals p listed _ declared _ declared' differ)

end

end Utot
