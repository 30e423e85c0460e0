import Utot.Library.Counting
import Utot.Sync.Csp
import Utot.Translate.Model

/-!
# IO sections

What the table of IO sections holds after `s_register_iodecl`, and when the
vectors of a CSP label follow the sections.  The sections are filed under the
name they carry, the processes are looked up under their full prefix; the two
differ for the instances of a process that was partially instantiated.
-/

namespace Utot

open Utap Library Tchecker

/-! ## The table -/

/-- A section with CSP events names the process. -/
def HasSection (sections : List IoDecl) (name : String) : Prop :=
  ∃ d ∈ sections, d.instanceName = name ∧ d.csp ≠ []

/-- A section of the process lists the label. -/
def SectionLists (env : Env) (sections : List IoDecl) (s name : String) : Prop :=
  ∃ d ∈ sections, d.instanceName = name ∧ ∃ e ∈ d.csp, translateExpression env none e [] = .ok s

theorem hasSection_of_lists {env : Env} {sections : List IoDecl} {s name : String}
    (listed : SectionLists env sections s name) : HasSection sections name := by
  obtain ⟨d, member, same, e, inside, _⟩ := listed
  exact ⟨d, member, same, List.ne_nil_of_mem inside⟩

theorem mem_sectionLabels {env : Env} {es : List Expr} {labels : List String}
    (returned : sectionLabels env es = .ok labels) (s : String) :
    s ∈ labels ↔ ∃ e ∈ es, translateExpression env none e [] = .ok s := by
  induction es generalizing labels with
  | nil =>
      cases returned
      simp
  | cons e rest ih =>
      obtain ⟨ev, first, returned⟩ := Res.bind_eq_ok.mp returned
      obtain ⟨others, later, returned⟩ := Res.bind_eq_ok.mp returned
      cases returned
      rw [List.mem_cons, ih later, List.exists_mem_cons_iff, first, Except.ok.injEq, eq_comm]

theorem mem_foldl_insert (labels : List String) (eset : EventSet) (s : String) :
    s ∈ labels.foldl (fun eset ev => eset.insert ev) eset ↔ s ∈ labels ∨ s ∈ eset := by
  induction labels generalizing eset with
  | nil => simp
  | cons label rest ih =>
      rw [List.foldl_cons, ih, Std.TreeSet.mem_insert, Std.compare_eq_iff_eq, List.mem_cons,
        eq_comm (a := label)]
      tauto

/-- What is registered after one more section. -/
theorem registerSection_spec {env : Env} {allowed allowed' : AllowedCsp} {d : IoDecl}
    (returned : registerSection env allowed d = .ok allowed') (s name : String) :
    (hasNoSection allowed' name = false ↔
      hasNoSection allowed name = false ∨ HasSection [d] name) ∧
    (lists allowed' s name = true ↔
      lists allowed s name = true ∨ SectionLists env [d] s name) := by
  unfold registerSection at returned
  split at returned
  · rename_i silent
    cases returned
    rw [List.isEmpty_iff] at silent
    simp [HasSection, SectionLists, silent]
  · rename_i events
    rw [List.isEmpty_iff] at events
    obtain ⟨labels, translated, returned⟩ := Res.bind_eq_ok.mp returned
    cases returned
    by_cases own : d.instanceName = name
    · subst own
      constructor
      · simp [hasNoSection, HasSection, events]
      · have inside := mem_foldl_insert labels (allowed[d.instanceName]?.getD ∅) s
        rw [mem_sectionLabels translated] at inside
        cases found : allowed[d.instanceName]? with
        | none =>
            rw [found] at inside
            simpa [lists, SectionLists, found] using inside
        | some set =>
            rw [found] at inside
            simpa [lists, SectionLists, found, or_comm] using inside
    · have unchanged : (allowed.insert d.instanceName
          (labels.foldl (fun eset ev => eset.insert ev) (allowed[d.instanceName]?.getD ∅)))[name]? =
          allowed[name]? := by
        rw [Std.TreeMap.getElem?_insert, if_neg (fun same => own (Std.compare_eq_iff_eq.mp same))]
      simp [hasNoSection, lists, HasSection, SectionLists, unchanged, own]

theorem sRegisterIodecl_spec {env : Env} {sections : List IoDecl} {allowed allowed' : AllowedCsp}
    (returned : sections.foldlM (registerSection env) allowed = .ok allowed') (s name : String) :
    (hasNoSection allowed' name = false ↔
      hasNoSection allowed name = false ∨ HasSection sections name) ∧
    (lists allowed' s name = true ↔
      lists allowed s name = true ∨ SectionLists env sections s name) := by
  induction sections generalizing allowed with
  | nil =>
      cases returned
      simp [HasSection, SectionLists]
  | cons d rest ih =>
      rw [List.foldlM_cons] at returned
      obtain ⟨middle, first, returned⟩ := Res.bind_eq_ok.mp returned
      obtain ⟨hasMiddle, listsMiddle⟩ := registerSection_spec first s name
      obtain ⟨hasAfter, listsAfter⟩ := ih returned
      rw [hasAfter, listsAfter, hasMiddle, listsMiddle]
      simp [HasSection, SectionLists, or_assoc]

/-- The table `s_register_iodecl` fills from an empty one is the sections. -/
theorem registered_iff {env : Env} {decls : Declarations} {allowed : AllowedCsp}
    (returned : sRegisterIodecl env decls ∅ = .ok allowed) (s name : String) :
    (hasNoSection allowed name = false ↔ HasSection decls.iodecl name) ∧
    (lists allowed s name = true ↔ SectionLists env decls.iodecl s name) := by
  have spec := sRegisterIodecl_spec returned s name
  simpa [hasNoSection, lists] using spec

/-! ## Vectors that follow the sections -/

/-- The vector mentions the label for the process. -/
def uses (p s : String) (v : SyncVector) : Bool := v.any fun x => x.process == p && x.event == s

theorem uses_iff {p s : String} {v : SyncVector} :
    uses p s v = true ↔ ∃ x ∈ v, x.process = p ∧ x.event = s := by
  simp [uses]

/-- What the vectors of a CSP label must be for processes of which `governed`
have an IO section, and `listed` one that lists the label. -/
structure CspExact (governed listed : String → Prop) (processes : ProcSet) (s : String)
    (lines : List SyncVector) : Prop where
  /-- Without a section the process is paired with `Stuck`, and nowhere else. -/
  blocked : ∀ p ∈ processes, ¬ governed p →
    (∃ v ∈ lines, v.Perm [⟨p, s, false⟩, ⟨stuckProcess, noSyncEvent, false⟩]) ∧
      lines.countP (uses p s) = 1
  /-- Several processes that list the label share one vector without marks. -/
  joined : ∀ p ∈ processes, listed p → (∃ q ∈ processes, q ≠ p ∧ listed q) →
    (∃ v ∈ lines, ∀ x : SyncElement, x ∈ v ↔
      x.process ∈ processes ∧ listed x.process ∧ x.event = s ∧ x.weak = false) ∧
      lines.countP (uses p s) = 1
  alone : ∀ p ∈ processes, listed p → (∀ q ∈ processes, listed q → q = p) →
    lines.countP (uses p s) = 0
  asynchronous : ∀ p ∈ processes, governed p → ¬ listed p → lines.countP (uses p s) = 0
  /-- No process occurs with the label in two vectors. -/
  once : ∀ p ∈ processes, lines.countP (uses p s) ≤ 1

section Lines

variable (allowedCsp : AllowedCsp) {s : String} {processes : ProcSet}

/-- The vector of the processes that list the label. -/
def joinedVector (s : String) (processes : ProcSet) : SyncVector :=
  elements (joinedMap allowedCsp s processes.toList)

theorem mem_joinedVector {x : SyncElement} :
    x ∈ joinedVector allowedCsp s processes ↔
      x.process ∈ processes ∧ lists allowedCsp s x.process = true ∧ x.event = s ∧ x.weak = false := by
  rw [joinedVector, (joinedMap_perm allowedCsp s (procSet_toList_nodup processes)).mem_iff,
    List.mem_map]
  constructor
  · rintro ⟨p, kept, rfl⟩
    obtain ⟨member, listed⟩ := List.mem_filter.mp kept
    exact ⟨Std.TreeSet.mem_toList.mp member, listed, rfl, rfl⟩
  · obtain ⟨p, e, weak⟩ := x
    rintro ⟨member, listed, rfl, rfl⟩
    exact ⟨p, List.mem_filter.mpr ⟨Std.TreeSet.mem_toList.mpr member, listed⟩, rfl⟩

/-- Two processes list the label. -/
def Several (s : String) (processes : ProcSet) : Prop :=
  ∃ p ∈ processes, ∃ q ∈ processes, p ≠ q ∧ lists allowedCsp s p = true ∧
    lists allowedCsp s q = true

theorem joinedMap_size :
    2 ≤ (joinedMap allowedCsp s processes.toList).size ↔ Several allowedCsp s processes := by
  have distinct := procSet_toList_nodup processes
  have kept : ∀ p, p ∈ processes.toList.filter (lists allowedCsp s) ↔
      p ∈ processes ∧ lists allowedCsp s p = true := by
    intro p
    rw [List.mem_filter, Std.TreeSet.mem_toList]
  rw [← elements_length, (joinedMap_perm allowedCsp s distinct).length_eq, List.length_map]
  have nodup := distinct.filter (lists allowedCsp s)
  revert kept nodup
  generalize processes.toList.filter (lists allowedCsp s) = joined
  intro kept nodup
  constructor
  · intro enough
    match joined, enough with
    | p :: q :: _, _ =>
        have first := (kept p).mp (by simp)
        have second := (kept q).mp (by simp)
        have differ : p ≠ q := fun same => (List.nodup_cons.mp nodup).1 (by simp [same])
        exact ⟨p, first.1, q, second.1, differ, first.2, second.2⟩
  · rintro ⟨p, memberP, q, memberQ, differ, listsP, listsQ⟩
    have insideP := (kept p).mpr ⟨memberP, listsP⟩
    have insideQ := (kept q).mpr ⟨memberQ, listsQ⟩
    match joined, insideP, insideQ with
    | [only], insideP, insideQ =>
        exact absurd ((List.mem_singleton.mp insideP).trans (List.mem_singleton.mp insideQ).symm) differ
    | _ :: _ :: _, _, _ => simp

instance : Decidable (Several allowedCsp s processes) :=
  decidable_of_iff _ (joinedMap_size allowedCsp)

theorem mem_cspVectors {v : SyncVector} :
    v ∈ cspVectors allowedCsp s processes.toList ↔
      (∃ p ∈ processes, hasNoSection allowedCsp p = true ∧ v = blockedVector p s) ∨
      (Several allowedCsp s processes ∧ v = joinedVector allowedCsp s processes) := by
  rw [cspVectors, List.mem_append, List.mem_map]
  constructor
  · rintro (⟨p, kept, same⟩ | member)
    · obtain ⟨listed, noSection⟩ := List.mem_filter.mp kept
      exact .inl ⟨p, Std.TreeSet.mem_toList.mp listed, noSection, same.symm⟩
    · split at member
      · rename_i enough
        exact .inr ⟨(joinedMap_size allowedCsp).mp enough, List.mem_singleton.mp member⟩
      · cases member
  · rintro (⟨p, member, noSection, same⟩ | ⟨several, same⟩)
    · exact .inl ⟨p, List.mem_filter.mpr ⟨Std.TreeSet.mem_toList.mpr member, noSection⟩, same.symm⟩
    · rw [if_pos ((joinedMap_size allowedCsp).mpr several)]
      exact .inr (List.mem_singleton.mpr same)

theorem uses_joinedVector {p : String} :
    uses p s (joinedVector allowedCsp s processes) = true ↔
      p ∈ processes ∧ lists allowedCsp s p = true := by
  rw [uses_iff]
  constructor
  · rintro ⟨x, inside, rfl, _⟩
    obtain ⟨member, listed, _⟩ := (mem_joinedVector allowedCsp).mp inside
    exact ⟨member, listed⟩
  · rintro ⟨member, listed⟩
    exact ⟨⟨p, s, false⟩, (mem_joinedVector allowedCsp).mpr ⟨member, listed, rfl, rfl⟩, rfl, rfl⟩

theorem uses_blockedVector {p q : String} (model : q ≠ stuckProcess) :
    uses p s (blockedVector q s) = true ↔ q = p ∨ p = stuckProcess ∧ s = noSyncEvent := by
  rw [uses_iff]
  constructor
  · rintro ⟨x, inside, process, event⟩
    rcases (mem_pairVector model).mp inside with rfl | rfl
    · exact .inl process
    · exact .inr ⟨process.symm, event.symm⟩
  · rintro (rfl | ⟨rfl, rfl⟩)
    · exact ⟨_, first_mem_pairVector _ _ _ _, rfl, rfl⟩
    · exact ⟨_, (mem_pairVector model).mpr (.inr rfl), rfl, rfl⟩

/-- How often a process occurs with the label. -/
theorem count_uses {p : String} (member : p ∈ processes)
    (models : ∀ q ∈ processes, hasNoSection allowedCsp q = true → q ≠ stuckProcess)
    (apart : ∀ q ∈ processes, hasNoSection allowedCsp q = true → p = stuckProcess →
      s ≠ noSyncEvent) :
    (cspVectors allowedCsp s processes.toList).countP (uses p s) =
      (if hasNoSection allowedCsp p then 1 else 0) +
        if Several allowedCsp s processes ∧ lists allowedCsp s p = true then 1 else 0 := by
  have distinct := procSet_toList_nodup processes
  have blocked : ((processes.toList.filter (hasNoSection allowedCsp)).map fun q =>
      blockedVector q (cspEvent s)).countP (uses p s) =
      if hasNoSection allowedCsp p then 1 else 0 := by
    rw [List.countP_map]
    have agree : ∀ q ∈ processes.toList.filter (hasNoSection allowedCsp),
        ((uses p s) ∘ fun q => blockedVector q (cspEvent s)) q = true ↔ (q == p) = true := by
      intro q kept
      obtain ⟨listed, noSection⟩ := List.mem_filter.mp kept
      have inside := Std.TreeSet.mem_toList.mp listed
      rw [beq_iff_eq]
      refine (uses_blockedVector (models q inside noSection)).trans ⟨?_, .inl⟩
      rintro (same | ⟨stuck, silent⟩)
      · exact same
      · exact absurd silent (apart q inside noSection stuck)
    rw [List.countP_congr agree]
    change List.count p _ = _
    rw [(distinct.filter _).count]
    simp [member]
  rw [cspVectors, List.countP_append, blocked]
  congr 1
  by_cases several : Several allowedCsp s processes
  · rw [if_pos ((joinedMap_size allowedCsp).mpr several), List.countP_singleton]
    change (if uses p s (joinedVector allowedCsp s processes) = true then 1 else 0) = _
    simp [uses_joinedVector, member, several]
  · rw [if_neg (fun enough => several ((joinedMap_size allowedCsp).mp enough))]
    simp [several]

/-! ## Agreement of the lookups -/

/-- The processes found without a section are those without one. -/
def SameBlocked (governed : String → Prop) (processes : ProcSet) : Prop :=
  ∀ p ∈ processes, hasNoSection allowedCsp p = true ↔ ¬ governed p

/-- The processes found to list the label are those that do, or neither are two. -/
def SameJoined (listed : String → Prop) (s : String) (processes : ProcSet) : Prop :=
  (∀ p ∈ processes, lists allowedCsp s p = true ↔ listed p) ∨
    (¬ Several allowedCsp s processes ∧
      ∀ p ∈ processes, ∀ q ∈ processes, listed p → listed q → p = q)

/-- No blocked process shares the vector of `Stuck` with a label `nosync` of a
process that is itself called `Stuck`. -/
def Apart (s : String) (processes : ProcSet) : Prop :=
  ∀ p ∈ processes, hasNoSection allowedCsp p = true → stuckProcess ∈ processes → s ≠ noSyncEvent

theorem not_lists_of_noSection {p : String} (noSection : hasNoSection allowedCsp p = true) :
    lists allowedCsp s p = false := by
  unfold hasNoSection at noSection
  unfold lists
  rw [Option.isNone_iff_eq_none.mp noSection]

variable {allowedCsp} {governed listed : String → Prop}

/-- `Stuck` is in the vector of every process without a section. -/
theorem stuck_mem_blockedVector {p : String} (model : p ≠ stuckProcess) :
    ⟨stuckProcess, noSyncEvent, false⟩ ∈ blockedVector p s :=
  (mem_pairVector model).mpr (.inr rfl)

/-- With a section and the label in no section the vectors are read off the lookups. -/
theorem cspExact_of_agreement (inside : ∀ p, listed p → governed p)
    (models : ∀ q ∈ processes, hasNoSection allowedCsp q = true → q ≠ stuckProcess)
    (apart : Apart allowedCsp s processes)
    (blocked : SameBlocked allowedCsp governed processes)
    (joined : SameJoined allowedCsp listed s processes) :
    CspExact governed listed processes s (cspVectors allowedCsp s processes.toList) := by
  have count : ∀ p ∈ processes, _ := fun p member =>
    count_uses allowedCsp (s := s) member models fun q memberQ noSection stuck =>
      apart q memberQ noSection (stuck ▸ member)
  have silent : ∀ p ∈ processes, governed p → hasNoSection allowedCsp p = false :=
    fun p member section' => by
      rw [← Bool.not_eq_true]
      exact fun noSection => (blocked p member).mp noSection section'
  refine ⟨?_, ?_, ?_, ?_, ?_⟩
  · intro p member free
    have noSection := (blocked p member).mpr free
    refine ⟨⟨_, (mem_cspVectors allowedCsp).mpr (.inl ⟨p, member, noSection, rfl⟩),
      pairVector_perm _ _ (models p member noSection)⟩, ?_⟩
    rw [count p member]
    simp [noSection, not_lists_of_noSection allowedCsp noSection]
  · rintro p member lists' ⟨q, memberQ, differ, listsQ⟩
    rcases joined with same | ⟨_, single⟩
    · have several : Several allowedCsp s processes :=
        ⟨q, memberQ, p, member, differ, (same q memberQ).mpr listsQ, (same p member).mpr lists'⟩
      refine ⟨⟨_, (mem_cspVectors allowedCsp).mpr (.inr ⟨several, rfl⟩), fun x => ?_⟩, ?_⟩
      · rw [mem_joinedVector]
        refine and_congr_right fun memberX => and_congr_left fun _ => same x.process memberX
      · rw [count p member]
        simp [several, silent p member (inside p lists'), (same p member).mpr lists']
    · exact absurd (single q memberQ p member listsQ lists') differ
  · intro p member lists' single
    have few : ¬ Several allowedCsp s processes := by
      rcases joined with same | ⟨few, _⟩
      · rintro ⟨a, memberA, b, memberB, differ, listsA, listsB⟩
        exact differ ((single a memberA ((same a memberA).mp listsA)).trans
          (single b memberB ((same b memberB).mp listsB)).symm)
      · exact few
    rw [count p member]
    simp [few, silent p member (inside p lists')]
  · intro p member section' free
    rw [count p member]
    rcases joined with same | ⟨few, _⟩
    · have unlisted : lists allowedCsp s p = false := by
        rw [← Bool.not_eq_true]
        exact fun found => free ((same p member).mp found)
      simp [silent p member section', unlisted]
    · simp [silent p member section', few]
  · intro p member
    rw [count p member]
    cases noSection : hasNoSection allowedCsp p with
    | true => simp [not_lists_of_noSection allowedCsp noSection]
    | false => simp only [Bool.false_eq_true, if_false]; split <;> omega

/-- No vector has a process twice. -/
theorem not_twice {v : SyncVector} (written : v ∈ cspVectors allowedCsp s processes.toList)
    {p e f : String} (twice : v.Perm [⟨p, e, false⟩, ⟨p, f, false⟩]) : False := by
  have distinct : (v.map SyncElement.process).Nodup := by
    rcases (mem_cspVectors allowedCsp).mp written with ⟨q, _, _, rfl⟩ | ⟨_, rfl⟩
    · exact elements_processes_nodup _
    · exact elements_processes_nodup _
  have repeated := (twice.map SyncElement.process).nodup_iff.mp distinct
  simp at repeated

/-- The shared vector is not the vector of a process without a section: `Stuck`
would have to list `nosync` together with it. -/
theorem joinedVector_not_blocked
    (exact : CspExact governed listed processes s (cspVectors allowedCsp s processes.toList))
    (inside : ∀ p, listed p → governed p) {p : String} (free : ¬ governed p)
    (written : joinedVector allowedCsp s processes ∈ cspVectors allowedCsp s processes.toList)
    (pair : (joinedVector allowedCsp s processes).Perm
      [⟨p, s, false⟩, ⟨stuckProcess, noSyncEvent, false⟩]) : False := by
  have first : (⟨p, s, false⟩ : SyncElement) ∈ joinedVector allowedCsp s processes :=
    pair.mem_iff.mpr (by simp)
  have second : (⟨stuckProcess, noSyncEvent, false⟩ : SyncElement) ∈
      joinedVector allowedCsp s processes := pair.mem_iff.mpr (by simp)
  obtain ⟨_, listsP, _⟩ := (mem_joinedVector allowedCsp).mp first
  obtain ⟨memberStuck, listsStuck, silent, _⟩ := (mem_joinedVector allowedCsp).mp second
  have usedStuck := (uses_joinedVector allowedCsp).mpr ⟨memberStuck, listsStuck⟩
  have positive := List.countP_pos_iff.mpr ⟨_, written, usedStuck⟩
  by_cases section' : governed stuckProcess
  · by_cases lists' : listed stuckProcess
    · by_cases other : ∃ q ∈ processes, q ≠ stuckProcess ∧ listed q
      · obtain ⟨⟨v, memberV, members⟩, one⟩ := exact.joined _ memberStuck lists' other
        have usedV : uses stuckProcess s v = true :=
          uses_iff.mpr ⟨⟨stuckProcess, s, false⟩, (members _).mpr ⟨memberStuck, lists', rfl, rfl⟩,
            rfl, rfl⟩
        have same := eq_of_countP_eq_one one memberV written usedV usedStuck
        rw [same] at members
        exact free (inside p ((members _).mp first).2.1)
      · push Not at other
        have none := exact.alone _ memberStuck lists' fun q memberQ listsQ => by
          by_contra differ
          exact other q memberQ differ listsQ
        omega
    · have none := exact.asynchronous _ memberStuck section' lists'
      omega
  · obtain ⟨⟨v, memberV, twice⟩, _⟩ := exact.blocked _ memberStuck section'
    exact not_twice memberV twice

theorem sameBlocked_of_cspExact (inside : ∀ p, listed p → governed p)
    (models : ∀ q ∈ processes, hasNoSection allowedCsp q = true → q ≠ stuckProcess)
    (apart : Apart allowedCsp s processes)
    (exact : CspExact governed listed processes s (cspVectors allowedCsp s processes.toList)) :
    SameBlocked allowedCsp governed processes := by
  intro p member
  constructor
  · intro noSection section'
    have written : blockedVector p s ∈ cspVectors allowedCsp s processes.toList :=
      (mem_cspVectors allowedCsp).mpr (.inl ⟨p, member, noSection, rfl⟩)
    have used : uses p s (blockedVector p s) = true :=
      (uses_blockedVector (models p member noSection)).mpr (.inl rfl)
    have positive := List.countP_pos_iff.mpr ⟨_, written, used⟩
    by_cases lists' : listed p
    · by_cases other : ∃ q ∈ processes, q ≠ p ∧ listed q
      · obtain ⟨⟨v, memberV, members⟩, one⟩ := exact.joined p member lists' other
        have usedV : uses p s v = true :=
          uses_iff.mpr ⟨⟨p, s, false⟩, (members _).mpr ⟨member, lists', rfl, rfl⟩, rfl, rfl⟩
        have same := eq_of_countP_eq_one one memberV written usedV used
        subst same
        have stuck := (members _).mp (stuck_mem_blockedVector (models p member noSection))
        exact apart p member noSection stuck.1 stuck.2.2.1.symm
      · push Not at other
        have none := exact.alone p member lists' fun q memberQ listsQ => by
          by_contra differ
          exact other q memberQ differ listsQ
        omega
    · have none := exact.asynchronous p member section' lists'
      omega
  · intro free
    obtain ⟨⟨v, memberV, pair⟩, _⟩ := exact.blocked p member free
    rcases (mem_cspVectors allowedCsp).mp memberV with ⟨q, memberQ, noSection, rfl⟩ | ⟨_, rfl⟩
    · have first : (⟨p, s, false⟩ : SyncElement) ∈ blockedVector q s := pair.mem_iff.mpr (by simp)
      rcases (mem_pairVector (models q memberQ noSection)).mp first with same | same
      · obtain ⟨rfl, _⟩ := SyncElement.mk.inj same
        exact noSection
      · obtain ⟨stuck, silent, _⟩ := SyncElement.mk.inj same
        exact absurd silent (apart q memberQ noSection (stuck ▸ member))
    · exact (joinedVector_not_blocked exact inside free memberV pair).elim

theorem sameJoined_of_cspExact (inside : ∀ p, listed p → governed p)
    (models : ∀ q ∈ processes, hasNoSection allowedCsp q = true → q ≠ stuckProcess)
    (apart : Apart allowedCsp s processes)
    (exact : CspExact governed listed processes s (cspVectors allowedCsp s processes.toList)) :
    SameJoined allowedCsp listed s processes := by
  have blocked := sameBlocked_of_cspExact inside models apart exact
  by_cases single : ∀ p ∈ processes, ∀ q ∈ processes, listed p → listed q → p = q
  · refine .inr ⟨?_, single⟩
    rintro ⟨p, member, q, memberQ, differ, listsP, listsQ⟩
    have written : joinedVector allowedCsp s processes ∈ cspVectors allowedCsp s processes.toList :=
      (mem_cspVectors allowedCsp).mpr
        (.inr ⟨⟨p, member, q, memberQ, differ, listsP, listsQ⟩, rfl⟩)
    have positive := List.countP_pos_iff.mpr
      ⟨_, written, (uses_joinedVector allowedCsp).mpr ⟨member, listsP⟩⟩
    have section' : governed p := by
      by_contra free
      rw [not_lists_of_noSection allowedCsp ((blocked p member).mpr free)] at listsP
      cases listsP
    by_cases lists' : listed p
    · have none := exact.alone p member lists' fun r memberR listsR =>
        single r memberR p member listsR lists'
      omega
    · have none := exact.asynchronous p member section' lists'
      omega
  · push Not at single
    obtain ⟨p, member, q, memberQ, lists', listsQ, differ⟩ := single
    obtain ⟨⟨v, memberV, members⟩, _⟩ := exact.joined p member lists' ⟨q, memberQ, Ne.symm differ, listsQ⟩
    rcases (mem_cspVectors allowedCsp).mp memberV with ⟨r, memberR, noSection, rfl⟩ | ⟨_, rfl⟩
    · have stuck := (members _).mp (stuck_mem_blockedVector (models r memberR noSection))
      exact absurd stuck.2.2.1.symm (apart r memberR noSection stuck.1)
    · refine .inl fun r memberR => ?_
      have same := (mem_joinedVector allowedCsp (s := s) (x := ⟨r, s, false⟩)).symm.trans (members _)
      simpa [memberR] using same

/-- The one way the vectors are right although a blocked process meets a process
called `Stuck` on a label `nosync`: the vector that blocks it is the vector the
two share. -/
def Masked (governed listed : String → Prop) (allowedCsp : AllowedCsp) (s : String)
    (processes : ProcSet) : Prop :=
  ¬ Several allowedCsp s processes ∧ (∀ q ∈ processes, governed q) ∧
    ∃ p ∈ processes, (∀ q ∈ processes, hasNoSection allowedCsp q = true ↔ q = p) ∧
      ∀ q ∈ processes, listed q ↔ q = p ∨ q = stuckProcess

theorem cspExact_of_masked
    (models : ∀ q ∈ processes, hasNoSection allowedCsp q = true → q ≠ stuckProcess)
    (met : stuckProcess ∈ processes) (silent : s = noSyncEvent)
    (masked : Masked governed listed allowedCsp s processes) :
    CspExact governed listed processes s (cspVectors allowedCsp s processes.toList) := by
  obtain ⟨few, sections, p, member, only, lists'⟩ := masked
  have noSection := (only p member).mpr rfl
  have model := models p member noSection
  have vectors : ∀ v, v ∈ cspVectors allowedCsp s processes.toList ↔ v = blockedVector p s := by
    intro v
    rw [mem_cspVectors]
    constructor
    · rintro (⟨q, memberQ, free, same⟩ | ⟨several, _⟩)
      · rw [same, (only q memberQ).mp free]
      · exact absurd several few
    · intro same
      exact .inl ⟨p, member, noSection, same⟩
  have one : cspVectors allowedCsp s processes.toList = [blockedVector p s] := by
    have keeps : processes.toList.filter (hasNoSection allowedCsp) = [p] := by
      refine List.perm_singleton.mp ((List.perm_ext_iff_of_nodup
        ((procSet_toList_nodup processes).filter _) (List.nodup_singleton p)).mpr fun q => ?_)
      rw [List.mem_filter, Std.TreeSet.mem_toList, List.mem_singleton]
      constructor
      · rintro ⟨memberQ, free⟩
        exact (only q memberQ).mp free
      · rintro rfl
        exact ⟨member, noSection⟩
    rw [cspVectors, keeps, if_neg (fun enough => few ((joinedMap_size allowedCsp).mp enough))]
    rfl
  have used : ∀ q, uses q s (blockedVector p s) = true ↔ q = p ∨ q = stuckProcess := by
    intro q
    rw [uses_blockedVector model, eq_comm (a := p)]
    simp [silent]
  rw [one]
  refine ⟨fun q memberQ free => absurd (sections q memberQ) free, ?_, ?_, ?_, ?_⟩
  · intro q memberQ listsQ _
    refine ⟨⟨_, List.mem_singleton.mpr rfl, fun x => ?_⟩, ?_⟩
    · rw [blockedVector, mem_pairVector model]
      obtain ⟨process, event, weak⟩ := x
      simp only [SyncElement.mk.injEq, silent]
      constructor
      · rintro (⟨rfl, rfl, rfl⟩ | ⟨rfl, rfl, rfl⟩)
        · exact ⟨member, (lists' _ member).mpr (.inl rfl), rfl, rfl⟩
        · exact ⟨met, (lists' _ met).mpr (.inr rfl), rfl, rfl⟩
      · rintro ⟨memberX, listsX, rfl, rfl⟩
        rcases (lists' _ memberX).mp listsX with rfl | rfl
        · exact .inl ⟨rfl, rfl, rfl⟩
        · exact .inr ⟨rfl, rfl, rfl⟩
    · rw [List.countP_singleton, if_pos ((used q).mpr ((lists' q memberQ).mp listsQ))]
  · intro q memberQ listsQ single
    have first := single p member ((lists' p member).mpr (.inl rfl))
    have second := single _ met ((lists' _ met).mpr (.inr rfl))
    exact absurd (first.trans second.symm) model
  · intro q memberQ _ unlisted
    rw [List.countP_singleton, if_neg]
    exact fun found => unlisted ((lists' q memberQ).mpr ((used q).mp found))
  · intro q _
    rw [List.countP_singleton]
    split <;> omega

theorem masked_of_cspExact (inside : ∀ p, listed p → governed p)
    (models : ∀ q ∈ processes, hasNoSection allowedCsp q = true → q ≠ stuckProcess)
    (together : ¬ Apart allowedCsp s processes)
    (exact : CspExact governed listed processes s (cspVectors allowedCsp s processes.toList)) :
    Masked governed listed allowedCsp s processes := by
  unfold Apart at together
  push Not at together
  obtain ⟨p, member, noSection, met, silent⟩ := together
  have model := models p member noSection
  have written : ∀ q ∈ processes, hasNoSection allowedCsp q = true →
      blockedVector q s ∈ cspVectors allowedCsp s processes.toList := fun q memberQ free =>
    (mem_cspVectors allowedCsp).mpr (.inl ⟨q, memberQ, free, rfl⟩)
  have usedStuck : ∀ q ∈ processes, hasNoSection allowedCsp q = true →
      uses stuckProcess s (blockedVector q s) = true := fun q memberQ free =>
    (uses_blockedVector (models q memberQ free)).mpr (.inr ⟨rfl, silent⟩)
  have once : (cspVectors allowedCsp s processes.toList).countP (uses stuckProcess s) = 1 :=
    le_antisymm (exact.once _ met)
      (List.countP_pos_iff.mpr ⟨_, written p member noSection, usedStuck p member noSection⟩)
  -- The vector of `p` is the only one with `Stuck`.
  have unique : ∀ v ∈ cspVectors allowedCsp s processes.toList, uses stuckProcess s v = true →
      v = blockedVector p s := fun v memberV used =>
    eq_of_countP_eq_one once memberV (written p member noSection) used
      (usedStuck p member noSection)
  have ends : ∀ q ∈ processes, ⟨q, s, false⟩ ∈ blockedVector p s → q = p ∨ q = stuckProcess := by
    intro q _ found
    rcases (mem_pairVector model).mp found with same | same
    · exact .inl (SyncElement.mk.inj same).1
    · exact .inr (SyncElement.mk.inj same).1
  have sectionStuck : governed stuckProcess := by
    by_contra free
    obtain ⟨⟨v, memberV, twice⟩, _⟩ := exact.blocked _ met free
    exact not_twice memberV twice
  have listsStuck : listed stuckProcess := by
    by_contra unlisted
    have none := exact.asynchronous _ met sectionStuck unlisted
    omega
  have other : ∃ q ∈ processes, q ≠ stuckProcess ∧ listed q := by
    by_contra nobody
    push Not at nobody
    have none := exact.alone _ met listsStuck fun q memberQ listsQ => by
      by_contra differ
      exact nobody q memberQ differ listsQ
    omega
  have lists' : ∀ q ∈ processes, listed q ↔ q = p ∨ q = stuckProcess := by
    obtain ⟨⟨v, memberV, members⟩, _⟩ := exact.joined _ met listsStuck other
    have usedV : uses stuckProcess s v = true :=
      uses_iff.mpr ⟨⟨stuckProcess, s, false⟩, (members _).mpr ⟨met, listsStuck, rfl, rfl⟩, rfl, rfl⟩
    rw [unique v memberV usedV] at members
    intro q memberQ
    constructor
    · intro listsQ
      exact ends q memberQ ((members _).mpr ⟨memberQ, listsQ, rfl, rfl⟩)
    · rintro (rfl | rfl)
      · exact ((members _).mp (first_mem_pairVector _ _ _ _)).2.1
      · exact listsStuck
  have sections : ∀ q ∈ processes, governed q := by
    intro q memberQ
    by_contra free
    obtain ⟨⟨v, memberV, pair⟩, _⟩ := exact.blocked q memberQ free
    have usedV : uses stuckProcess s v = true :=
      uses_iff.mpr ⟨⟨stuckProcess, noSyncEvent, false⟩, pair.mem_iff.mpr (by simp), rfl, silent.symm⟩
    have first : (⟨q, s, false⟩ : SyncElement) ∈ v := pair.mem_iff.mpr (by simp)
    rw [unique v memberV usedV] at first
    exact free (inside q ((lists' q memberQ).mpr (ends q memberQ first)))
  refine ⟨?_, sections, p, member, fun q memberQ => ⟨fun free => ?_, fun same => same ▸ noSection⟩,
    lists'⟩
  · intro several
    have shared : joinedVector allowedCsp s processes ∈ cspVectors allowedCsp s processes.toList :=
      (mem_cspVectors allowedCsp).mpr (.inr ⟨several, rfl⟩)
    have none : ∀ q ∈ processes, lists allowedCsp s q = true → q = stuckProcess := by
      intro q memberQ listsQ
      have positive := List.countP_pos_iff.mpr
        ⟨_, shared, (uses_joinedVector allowedCsp).mpr ⟨memberQ, listsQ⟩⟩
      by_cases listed' : listed q
      · rcases (lists' q memberQ).mp listed' with rfl | same
        · rw [not_lists_of_noSection allowedCsp noSection] at listsQ
          cases listsQ
        · exact same
      · have zero := exact.asynchronous q memberQ (sections q memberQ) listed'
        omega
    obtain ⟨a, memberA, b, memberB, differ, listsA, listsB⟩ := several
    exact differ ((none a memberA listsA).trans (none b memberB listsB).symm)
  · have same := unique _ (written q memberQ free) (usedStuck q memberQ free)
    have first := first_mem_pairVector q s stuckProcess noSyncEvent
    change _ ∈ blockedVector q s at first
    rw [same] at first
    rcases ends q memberQ first with equal | stuck
    · exact equal
    · exact absurd stuck (models q memberQ free)

end Lines

/-! ## The generation -/

/-- A blocked event is written for a process that is not itself called `Stuck`. -/
theorem sGenerateBlockedEvent_model (s p : String) (trevent : String → String) :
    Spec (fun _ => True) (sGenerateBlockedEvent s p trevent) (fun _ _ => p ≠ stuckProcess)
      (fun _ => True) := by
  have written : Spec (fun _ => True) (sync (((∅ : SyncMap).insertIfNew p (trevent s, false)).insertIfNew
      stuckProcess (noSyncEvent, false))) (fun _ _ => p ≠ stuckProcess) (fun _ => True) := by
    refine Spec.bind (Q := fun _ _ => p ≠ stuckProcess) ?_ fun _ => ?_
    · refine Spec.lift (fun _ _ _ passed => ?_) fun _ _ _ _ => trivial
      rw [← pairMap_size p (trevent s) stuckProcess noSyncEvent]
      by_contra few
      simp [assertThat, few] at passed
    · exact Spec.update fun _ pre => pre
  refine Spec.read fun r _ => ?_
  dsimp only
  split
  · refine Spec.bind (Q := fun _ _ => True) ?_ fun _ => ?_
    · exact fun st _ => by
        rcases exec sAddStuckProcess st with ⟨_ | _, _⟩ <;> trivial
    · exact Spec.bind (Spec.update fun _ _ => trivial) fun _ => written
  · exact written.weaken (fun _ _ => trivial) (fun _ _ post => post) fun _ failed => failed

/-- The generation for a label returns unless it has to block a process `Stuck`. -/
theorem sGenerateStrongSync_returns_iff (allowedCsp : AllowedCsp) (s : String)
    (processes : ProcSet) (st : TrState) :
    (∃ st', exec (sGenerateStrongSync s processes allowedCsp) st = (.ok (), st')) ↔
      ∀ q ∈ processes, hasNoSection allowedCsp q = true → q ≠ stuckProcess := by
  constructor
  · rintro ⟨st', run⟩
    let seen (visited : List String) (_ : SyncMap) (_ : TrState) : Prop :=
      ∀ q ∈ visited, hasNoSection allowedCsp q = true → q ≠ stuckProcess
    have loop : Spec (seen [] ∅) (processes.toList.foldlM (sStrongSyncStep allowedCsp s) ∅)
        (seen processes.toList) (fun _ => True) := by
      refine Spec.foldlM (I := seen) (fun visited p rest vect _ => ?_) ∅
      unfold sStrongSyncStep
      cases found : allowedCsp[p]? with
      | none =>
          intro st before
          have blocked := ((sGenerateBlockedEvent_model s p cspEvent).bind
            fun _ => Spec.ret (E := fun _ => True) (Q := fun _ _ => p ≠ stuckProcess) vect
              fun _ model => model) st trivial
          revert blocked
          generalize exec _ st = outcome
          rcases outcome with ⟨_ | vect', st'⟩
          · exact fun _ => trivial
          · intro model q member free
            rcases List.mem_append.mp member with earlier | now
            · exact before q earlier free
            · rw [List.mem_singleton.mp now]
              exact model
      | some set =>
          refine Spec.ret _ fun st before q member free => ?_
          rcases List.mem_append.mp member with earlier | now
          · exact before q earlier free
          · rw [List.mem_singleton.mp now, hasNoSection, found] at free
            cases free
    have whole : Spec (fun _ => True) (sGenerateStrongSync s processes allowedCsp)
        (fun _ _ => ∀ q ∈ processes.toList, hasNoSection allowedCsp q = true → q ≠ stuckProcess)
        (fun _ => True) := by
      refine Spec.bind (loop.weaken (fun _ _ => by simp [seen]) (fun _ _ post => post)
        fun _ failed => failed) fun vect => ?_
      intro st before
      generalize exec _ st = outcome
      rcases outcome with ⟨_ | _, _⟩
      · trivial
      · exact before
    intro q member
    exact whole.returned trivial run q (Std.TreeSet.mem_toList.mpr member)
  · intro models
    have spec := (@sGenerateStrongSync_spec st.vectors st.events allowedCsp s
      processes).weaken (F := fun _ => False) (fun _ pre => pre) (fun _ _ post => post)
      fun _ stuck => models _ stuck.1 stuck.2 rfl
    obtain ⟨_, st', run, _⟩ := spec.returns (s := st) ⟨rfl, rfl⟩
    exact ⟨st', run⟩

/-- The vectors `s_generate_strong_sync` writes from a state. -/
def strongLines (st : TrState) (s : String) (processes : ProcSet) (allowedCsp : AllowedCsp) :
    List SyncVector :=
  ((exec (sGenerateStrongSync s processes allowedCsp) st).2.vectors).drop st.vectors.length

theorem strongLines_eq {st st' : TrState} {s : String} {processes : ProcSet}
    {allowedCsp : AllowedCsp}
    (run : exec (sGenerateStrongSync s processes allowedCsp) st = (.ok (), st')) :
    strongLines st s processes allowedCsp = cspVectors allowedCsp s processes.toList := by
  have written := (@sGenerateStrongSync_spec st.vectors st.events allowedCsp s
    processes).returned ⟨rfl, rfl⟩ run
  rw [strongLines, run, written.1, List.drop_left]

/-- At most one process of the set has the property. -/
def AtMostOne (listed : String → Prop) (processes : ProcSet) : Prop :=
  ∀ p ∈ processes, ∀ q ∈ processes, listed p → listed q → p = q

/-- What is found under the prefixes of the processes (`found`, `foundLists`)
serves what the sections say of them (`governed`, `listed`). -/
structure LookupsAgree (found foundLists governed listed : String → Prop) (s : String)
    (processes : ProcSet) : Prop where
  /-- No process to be blocked is itself called `Stuck`. -/
  models : ∀ q ∈ processes, ¬ found q → q ≠ stuckProcess
  agree : (∀ p ∈ processes, ¬ found p → stuckProcess ∈ processes → s ≠ noSyncEvent) →
    (∀ p ∈ processes, found p ↔ governed p) ∧
      ((∀ p ∈ processes, foundLists p ↔ listed p) ∨
        AtMostOne foundLists processes ∧ AtMostOne listed processes)
  /-- A process called `Stuck` that has the label `nosync` of the blocked
  processes must share it with the one process that is blocked. -/
  masked : ¬ (∀ p ∈ processes, ¬ found p → stuckProcess ∈ processes → s ≠ noSyncEvent) →
    AtMostOne foundLists processes ∧ (∀ q ∈ processes, governed q) ∧
      ∃ p ∈ processes, (∀ q ∈ processes, ¬ found q ↔ q = p) ∧
        ∀ q ∈ processes, listed q ↔ q = p ∨ q = stuckProcess

theorem not_several_iff {allowedCsp : AllowedCsp} {s : String} {processes : ProcSet} :
    ¬ Several allowedCsp s processes ↔
      AtMostOne (fun p => lists allowedCsp s p = true) processes := by
  unfold Several AtMostOne
  push Not
  constructor
  · intro none p member q memberQ listsP listsQ
    by_contra differ
    exact none p member q memberQ differ listsP listsQ
  · intro single p member q memberQ differ listsP listsQ
    exact differ (single p member q memberQ listsP listsQ)

theorem cspExact_iff {allowedCsp : AllowedCsp} {governed listed : String → Prop} {s : String}
    {processes : ProcSet} (inside : ∀ p, listed p → governed p)
    (models : ∀ q ∈ processes, hasNoSection allowedCsp q = true → q ≠ stuckProcess) :
    CspExact governed listed processes s (cspVectors allowedCsp s processes.toList) ↔
      (Apart allowedCsp s processes → SameBlocked allowedCsp governed processes ∧
        SameJoined allowedCsp listed s processes) ∧
      (¬ Apart allowedCsp s processes → Masked governed listed allowedCsp s processes) := by
  constructor
  · intro exact
    exact ⟨fun apart => ⟨sameBlocked_of_cspExact inside models apart exact,
      sameJoined_of_cspExact inside models apart exact⟩,
      fun together => masked_of_cspExact inside models together exact⟩
  · rintro ⟨agree, masked⟩
    by_cases apart : Apart allowedCsp s processes
    · exact cspExact_of_agreement inside models apart (agree apart).1 (agree apart).2
    · have together := apart
      unfold Apart at together
      push Not at together
      obtain ⟨_, _, _, met, silent⟩ := together
      exact cspExact_of_masked models met silent (masked apart)

/-- The generation returns with vectors that follow the IO sections exactly when
looking a process up under its prefix finds what the sections of its owner, the
process of the model it is an instance of, say. -/
theorem strongSync_exact_iff {env : Env} {decls : Declarations} {allowedCsp : AllowedCsp}
    (registered : sRegisterIodecl env decls ∅ = .ok allowedCsp) (owner : String → String)
    (st : TrState) (s : String) (processes : ProcSet) :
    ((∃ st', exec (sGenerateStrongSync s processes allowedCsp) st = (.ok (), st')) ∧
      CspExact (fun p => HasSection decls.iodecl (owner p))
        (fun p => SectionLists env decls.iodecl s (owner p)) processes s
        (strongLines st s processes allowedCsp)) ↔
    LookupsAgree (HasSection decls.iodecl) (SectionLists env decls.iodecl s)
      (fun p => HasSection decls.iodecl (owner p))
      (fun p => SectionLists env decls.iodecl s (owner p)) s processes := by
  have found : ∀ p, hasNoSection allowedCsp p = true ↔ ¬ HasSection decls.iodecl p := by
    intro p
    rw [← (registered_iff registered s p).1, Bool.not_eq_false]
  have foundLists : ∀ p, lists allowedCsp s p = true ↔ SectionLists env decls.iodecl s p :=
    fun p => (registered_iff registered s p).2
  have inside : ∀ p, SectionLists env decls.iodecl s (owner p) →
      HasSection decls.iodecl (owner p) := fun p => hasSection_of_lists
  have lines : (∃ st', exec (sGenerateStrongSync s processes allowedCsp) st = (.ok (), st')) →
      strongLines st s processes allowedCsp = cspVectors allowedCsp s processes.toList := by
    rintro ⟨st', run⟩
    exact strongLines_eq run
  have converted : (Apart allowedCsp s processes ↔
      ∀ p ∈ processes, ¬ HasSection decls.iodecl p → stuckProcess ∈ processes →
        s ≠ noSyncEvent) := by
    simp only [Apart, found]
  have single := @not_several_iff allowedCsp s processes
  simp only [foundLists] at single
  constructor
  · rintro ⟨returns, exact⟩
    rw [lines returns] at exact
    have models := (sGenerateStrongSync_returns_iff allowedCsp s processes st).mp returns
    obtain ⟨agree, masked⟩ := (cspExact_iff inside models).mp exact
    rw [converted] at agree masked
    simp only [SameBlocked, SameJoined, Masked, found, foundLists, single, not_iff_not] at agree masked
    exact ⟨by simpa only [found] using models, agree, masked⟩
  · rintro ⟨models, agree, masked⟩
    simp only [← found] at models
    have returns := (sGenerateStrongSync_returns_iff allowedCsp s processes st).mpr models
    refine ⟨returns, ?_⟩
    rw [lines returns, cspExact_iff inside models, converted]
    simp only [SameBlocked, SameJoined, Masked, found, foundLists, single, not_iff_not]
    exact ⟨agree, masked⟩

/-- A model whose only symbol is the global channel `c`. -/
def channelEnv : Env := ⟨fun _ => ⟨"c", .prim .channel, false, none⟩, 0, 1⟩

/-- IO sections that list the channel `c`, one for each name. -/
def channelSections (names : List String) : Declarations :=
  ⟨[], names.map fun name => ⟨name, [.identifier 0 (.prim .channel)]⟩, []⟩

theorem sectionLists_channelSections {names : List String} {name : String} :
    SectionLists channelEnv (channelSections names).iodecl "c" name ↔ name ∈ names := by
  have label : translateExpression channelEnv none (.identifier 0 (.prim .channel)) [] = .ok "c" :=
    rfl
  simp [SectionLists, channelSections, label]

/-- Two processes with their own sections share one vector. -/
theorem strongSync_exact_instances :
    ∃ allowedCsp, sRegisterIodecl channelEnv (channelSections ["A", "B"]) ∅ = .ok allowedCsp ∧
      CspExact (HasSection (channelSections ["A", "B"]).iodecl)
        (SectionLists channelEnv (channelSections ["A", "B"]).iodecl "c") {"A", "B"} "c"
        (strongLines .initial "c" {"A", "B"} allowedCsp) := by
  refine ⟨_, rfl, ?_⟩
  refine ((@strongSync_exact_iff channelEnv (channelSections ["A", "B"]) _ rfl id .initial "c"
    {"A", "B"}).mpr ⟨?_, ?_, ?_⟩).2
  · rintro q member _ rfl
    exact absurd member (by decide)
  · intro _
    exact ⟨fun _ _ => Iff.rfl, .inl fun _ _ => Iff.rfl⟩
  · intro together
    exact absurd (fun _ _ _ _ => by decide) together

/-- The two instances of a partially instantiated `N` whose section lists `c`:
they are found under no section and both are blocked. -/
theorem strongSync_blocks_partial_instances :
    ∃ allowedCsp, sRegisterIodecl channelEnv (channelSections ["N"]) ∅ = .ok allowedCsp ∧
      strongLines .initial "c" {"N_p_0", "N_p_1"} allowedCsp =
        [[⟨"N_p_0", "c", false⟩, ⟨"Stuck", "nosync", false⟩],
          [⟨"N_p_1", "c", false⟩, ⟨"Stuck", "nosync", false⟩]] ∧
      ¬ CspExact (fun _ => HasSection (channelSections ["N"]).iodecl "N")
        (fun _ => SectionLists channelEnv (channelSections ["N"]).iodecl "c" "N")
        {"N_p_0", "N_p_1"} "c" (strongLines .initial "c" {"N_p_0", "N_p_1"} allowedCsp) := by
  refine ⟨_, rfl, ?_, ?_⟩
  · decide
  · intro exact
    have listed := sectionLists_channelSections.mpr (List.mem_singleton.mpr rfl : "N" ∈ ["N"])
    obtain ⟨⟨v, member, members⟩, _⟩ := exact.joined "N_p_0" (by decide) listed
      ⟨"N_p_1", by decide, by decide, listed⟩
    have second := (members ⟨"N_p_1", "c", false⟩).mpr ⟨by decide, listed, rfl, rfl⟩
    have first := (members ⟨"N_p_0", "c", false⟩).mpr ⟨by decide, listed, rfl, rfl⟩
    have blocked : v ∈ [[⟨"N_p_0", "c", false⟩, ⟨"Stuck", "nosync", false⟩],
        [⟨"N_p_1", "c", false⟩, ⟨"Stuck", "nosync", false⟩]] := member
    rcases List.mem_cons.mp blocked with rfl | blocked
    · exact absurd second (by decide)
    · rw [List.mem_singleton.mp blocked] at first
      exact absurd first (by decide)

end Utot
