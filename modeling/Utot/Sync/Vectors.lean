import Utot.Translate.Synchronisation
import Mathlib.Data.List.Nodup

/-!
# Vectors as sets of elements

A `sync` line is written from a map, so its elements are determined by the
bindings of that map and no process occurs twice.  The vectors the generator
builds are described here up to the order of their elements.
-/

namespace Utot

open Library Tchecker

/-! ## The vectors of a trace -/

/-- The vectors of the `sync` lines among some lines. -/
def vectorsOf (lines : List Line) : List SyncVector :=
  lines.filterMap fun
    | .sync v => some v
    | _ => none

namespace TrState

/-- The vectors written so far. -/
def vectors (s : TrState) : List SyncVector := vectorsOf s.lines

@[simp] theorem vectors_writeLine_sync (s : TrState) (v : SyncVector) :
    (s.writeLine (.sync v)).vectors = s.vectors ++ [v] := by
  simp [vectors, vectorsOf]

@[simp] theorem vectors_writeLine_process (s : TrState) (id : String) :
    (s.writeLine (.process id)).vectors = s.vectors := by
  simp [vectors, vectorsOf]

@[simp] theorem vectors_writeLine_event (s : TrState) (id : String) :
    (s.writeLine (.event id)).vectors = s.vectors := by
  simp [vectors, vectorsOf]

@[simp] theorem vectors_writeLine_location (s : TrState) (p id : String)
    (attr : List (String × String)) :
    (s.writeLine (.location p id attr)).vectors = s.vectors := by
  simp [vectors, vectorsOf]

@[simp] theorem vectors_comment (s : TrState) (args : List Arg) :
    (s.write (.comment args)).vectors = s.vectors := by
  simp [vectors]

end TrState

/-! ## Elements of a map -/

theorem mem_elements {sv : SyncMap} {x : SyncElement} :
    x ∈ elements sv ↔ sv[x.process]? = some (x.event, x.weak) := by
  constructor
  · intro member
    obtain ⟨entry, listed, same⟩ := List.mem_map.mp member
    subst same
    exact Std.TreeMap.mem_toList_iff_getElem?_eq_some.mp listed
  · intro bound
    exact List.mem_map.mpr ⟨(x.process, x.event, x.weak),
      Std.TreeMap.mem_toList_iff_getElem?_eq_some.mpr bound, rfl⟩

theorem elements_processes_nodup (sv : SyncMap) :
    ((elements sv).map SyncElement.process).Nodup := by
  have distinct := Std.TreeMap.distinct_keys_toList (t := sv)
  rw [elements, List.map_map, List.Nodup, List.pairwise_map]
  exact distinct.imp fun differ same => differ (Std.compare_eq_iff_eq.mpr same)

theorem elements_nodup (sv : SyncMap) : (elements sv).Nodup :=
  List.Nodup.of_map _ (elements_processes_nodup sv)

@[simp] theorem elements_empty : elements ∅ = [] := rfl

/-- `emplace` of a new process adds its element. -/
theorem elements_insertIfNew_perm {sv : SyncMap} {process : String} (event : String) (weak : Bool)
    (fresh : process ∉ sv) :
    (elements (sv.insertIfNew process (event, weak))).Perm
      (⟨process, event, weak⟩ :: elements sv) := by
  have absent : ∀ x ∈ elements sv, x.process ≠ process := by
    intro x member same
    rw [mem_elements, same, Std.TreeMap.getElem?_eq_none fresh] at member
    cases member
  refine (List.perm_ext_iff_of_nodup (elements_nodup _) ?_).mpr ?_
  · exact List.nodup_cons.mpr ⟨fun member => absent _ member rfl, elements_nodup sv⟩
  · intro x
    rw [List.mem_cons, mem_elements, mem_elements, Std.TreeMap.getElem?_insertIfNew]
    by_cases same : x.process = process
    · rw [same, Std.TreeMap.getElem?_eq_none fresh]
      obtain ⟨p, e, w⟩ := x
      simp_all [eq_comm]
    · have differs : x ≠ ⟨process, event, weak⟩ := fun equal => same (by rw [equal])
      simp [differs, Ne.symm same]

/-- `emplace` of a process that is there already changes nothing. -/
theorem elements_insertIfNew_of_mem {sv : SyncMap} {process : String} (x : String × Bool)
    (bound : process ∈ sv) : (elements (sv.insertIfNew process x)).Perm (elements sv) := by
  refine (List.perm_ext_iff_of_nodup (elements_nodup _) (elements_nodup _)).mpr fun y => ?_
  rw [mem_elements, mem_elements, Std.TreeMap.getElem?_insertIfNew]
  split
  · rename_i fresh
    rw [Std.compare_eq_iff_eq] at fresh
    exact absurd bound fresh.2
  · rfl

theorem elements_length (sv : SyncMap) : (elements sv).length = sv.size := by
  rw [elements, List.length_map, Std.TreeMap.length_toList]

/-! ## The vectors with two elements -/

/-- The vector of two processes. -/
def pairVector (p e q f : String) : SyncVector :=
  elements (((∅ : SyncMap).insertIfNew p (e, false)).insertIfNew q (f, false))

theorem pairVector_perm {p q : String} (e f : String) (differ : p ≠ q) :
    (pairVector p e q f).Perm [⟨p, e, false⟩, ⟨q, f, false⟩] := by
  have fresh : q ∉ (∅ : SyncMap).insertIfNew p (e, false) := by
    simp [Std.TreeMap.mem_insertIfNew, differ]
  have single := elements_insertIfNew_perm e false
    (Std.TreeMap.not_mem_emptyc (k := p))
  have both := elements_insertIfNew_perm f false fresh
  exact both.trans ((single.cons _).trans (List.Perm.swap _ _ _))

theorem mem_pairVector {p q e f : String} (differ : p ≠ q) {x : SyncElement} :
    x ∈ pairVector p e q f ↔ x = ⟨p, e, false⟩ ∨ x = ⟨q, f, false⟩ := by
  rw [(pairVector_perm e f differ).mem_iff]
  simp

/-- Two processes make a vector that `sync` accepts exactly when they differ. -/
theorem pairMap_size (p e q f : String) :
    2 ≤ (((∅ : SyncMap).insertIfNew p (e, false)).insertIfNew q (f, false)).size ↔ p ≠ q := by
  by_cases same : p = q
  · subst same
    have unchanged := (elements_insertIfNew_of_mem (f, false)
      (Std.TreeMap.mem_insertIfNew_self (t := (∅ : SyncMap)) (k := p) (v := (e, false)))).length_eq
    have single := (elements_insertIfNew_perm e false
      (Std.TreeMap.not_mem_emptyc (k := p))).length_eq
    rw [elements_length] at unchanged
    rw [elements_length] at unchanged single
    rw [unchanged, single]
    simp
  · have two := (pairVector_perm e f same).length_eq
    rw [pairVector, elements_length] at two
    rw [two]
    simp [same]

theorem first_mem_pairVector (p e q f : String) : ⟨p, e, false⟩ ∈ pairVector p e q f := by
  rw [pairVector, mem_elements, Std.TreeMap.getElem?_insertIfNew,
    Std.TreeMap.getElem?_insertIfNew]
  simp only [Std.TreeMap.mem_insertIfNew, Std.compare_eq_iff_eq]
  simp only [Std.TreeMap.not_mem_emptyc, not_false_eq_true, and_true, or_false, if_true]
  split
  · rename_i clash
    exact absurd clash.1.symm clash.2
  · rfl

theorem event_of_mem_pairVector {p e q f : String} {x : SyncElement}
    (member : x ∈ pairVector p e q f) : x.event = e ∨ x.event = f := by
  rw [pairVector, mem_elements, Std.TreeMap.getElem?_insertIfNew,
    Std.TreeMap.getElem?_insertIfNew] at member
  split at member
  · exact .inr (congrArg Prod.fst (Option.some.inj member)).symm
  · split at member
    · exact .inl (congrArg Prod.fst (Option.some.inj member)).symm
    · simp at member

/-- The vector `s_generate_blocked_event` writes. -/
def blockedVector (p e : String) : SyncVector := pairVector p e stuckProcess noSyncEvent

/-! ## The vectors of a broadcast -/

/-- The fold of `s_generate_emit_broadcast` over receivers that are not yet in
the vector. -/
theorem broadcastFold_perm (s pe : String) (receivers : List String) (start : SyncMap)
    (distinct : receivers.Nodup) (sender : pe ∈ start)
    (fresh : ∀ pr ∈ receivers, pr ≠ pe → pr ∉ start) :
    (elements (receivers.foldl
      (fun vect pr => if pe = pr then vect else vect.insertIfNew pr (recvEvent s, true))
      start)).Perm
    ((receivers.filter (pe ≠ ·)).map (fun pr => ⟨pr, recvEvent s, true⟩) ++ elements start) := by
  induction receivers generalizing start with
  | nil => exact .refl _
  | cons pr rest ih =>
      obtain ⟨new, distinct⟩ := List.nodup_cons.mp distinct
      rw [List.foldl_cons]
      by_cases same : pe = pr
      · simpa [same] using ih start distinct sender
          fun q member => fresh q (List.mem_cons_of_mem _ member)
      · have added := ih (start.insertIfNew pr (recvEvent s, true)) distinct
          (by simp [Std.TreeMap.mem_insertIfNew, sender]) (by
            intro q member differ
            have absent := fresh q (List.mem_cons_of_mem _ member) differ
            have differs : pr ≠ q := fun equal => new (equal ▸ member)
            simp [Std.TreeMap.mem_insertIfNew, absent, differs])
        have one := elements_insertIfNew_perm (recvEvent s) true
          (fresh pr List.mem_cons_self (Ne.symm same))
        simp only [same, if_false, ne_eq, not_false_eq_true, decide_true, List.filter_cons_of_pos,
          List.map_cons]
        exact added.trans ((one.append_left _).trans List.perm_middle)

theorem broadcastMap_perm (s pe : String) {receivers : List String} (distinct : receivers.Nodup) :
    (elements (broadcastMap s pe receivers)).Perm
      (⟨pe, emitEvent s, false⟩ ::
        (receivers.filter (pe ≠ ·)).map fun pr => ⟨pr, recvEvent s, true⟩) := by
  have single := elements_insertIfNew_perm (emitEvent s) false
    (Std.TreeMap.not_mem_emptyc (k := pe))
  have folded := broadcastFold_perm s pe receivers
    ((∅ : SyncMap).insertIfNew pe (emitEvent s, false)) distinct
    (by simp [Std.TreeMap.mem_insertIfNew])
    (by
      intro pr _ differ
      simp [Std.TreeMap.mem_insertIfNew, Ne.symm differ])
  exact folded.trans ((single.append_left _).trans (List.perm_append_singleton _ _))

theorem mem_broadcastMap {s pe : String} {receivers : List String} (distinct : receivers.Nodup)
    {x : SyncElement} :
    x ∈ elements (broadcastMap s pe receivers) ↔
      x = ⟨pe, emitEvent s, false⟩ ∨ ∃ pr ∈ receivers, pe ≠ pr ∧ x = ⟨pr, recvEvent s, true⟩ := by
  rw [(broadcastMap_perm s pe distinct).mem_iff, List.mem_cons, List.mem_map]
  constructor
  · rintro (same | ⟨pr, kept, same⟩)
    · exact .inl same
    · obtain ⟨member, differ⟩ := List.mem_filter.mp kept
      exact .inr ⟨pr, member, by simpa using differ, same.symm⟩
  · rintro (same | ⟨pr, member, differ, same⟩)
    · exact .inl same
    · exact .inr ⟨pr, List.mem_filter.mpr ⟨member, by simpa using differ⟩, same.symm⟩

/-- Some process of the list is not `p`. -/
def hasPartner (p : String) (others : List String) : Bool := others.any (p ≠ ·)

theorem hasPartner_iff {p : String} {others : List String} :
    hasPartner p others = true ↔ ∃ q ∈ others, p ≠ q := by
  simp [hasPartner]

theorem broadcastMap_size (s pe : String) {receivers : List String} (distinct : receivers.Nodup) :
    2 ≤ (broadcastMap s pe receivers).size ↔ hasPartner pe receivers = true := by
  rw [← elements_length, (broadcastMap_perm s pe distinct).length_eq, hasPartner_iff]
  simp [Nat.succ_le_iff, List.length_pos_iff_exists_mem]

end Utot
