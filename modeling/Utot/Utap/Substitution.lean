import Utot.Utap.System

/-!
# Substitution

Expressions in place of symbols, in an expression and in the ranges of the
types its nodes store.
-/

namespace Utot.Utap

/-- Expressions for some of the symbols. -/
abbrev Bindings := Symbol → Option Expr

mutual

def Ty.subst (σ : Bindings) : Ty → Ty
  | .prim k => .prim k
  | .pre k t => .pre k (t.subst σ)
  | .ref t => .ref (t.subst σ)
  | .label name t => .label name (t.subst σ)
  | .range t lower upper => .range (t.subst σ) (lower.subst σ) (upper.subst σ)
  | .array sub size => .array (sub.subst σ) (size.subst σ)
  | .record labels fields => .record labels (Ty.substAll σ fields)

def Ty.substAll (σ : Bindings) : List Ty → List Ty
  | [] => []
  | t :: ts => t.subst σ :: Ty.substAll σ ts

def Expr.subst (σ : Bindings) : Expr → Expr
  | .identifier s t =>
      match σ s with
      | some argument => argument
      | none => .identifier s (t.subst σ)
  | .constant v t => .constant v (t.subst σ)
  | .unary k x t => .unary k (x.subst σ) (t.subst σ)
  | .binary k l r t => .binary k (l.subst σ) (r.subst σ) (t.subst σ)
  | .inlineIf c y n t => .inlineIf (c.subst σ) (y.subst σ) (n.subst σ) (t.subst σ)
  | .nary k es t => .nary k (Expr.substAll σ es) (t.subst σ)
  | .sync k channel => .sync k (channel.subst σ)

def Expr.substAll (σ : Bindings) : List Expr → List Expr
  | [] => []
  | e :: es => e.subst σ :: Expr.substAll σ es

end

mutual

/-- The symbols of the ranges of a type. -/
def Ty.symbols : Ty → List Symbol
  | .prim _ => []
  | .pre _ t => t.symbols
  | .ref t => t.symbols
  | .label _ t => t.symbols
  | .range t lower upper => t.symbols ++ (lower.symbols ++ upper.symbols)
  | .array sub size => sub.symbols ++ size.symbols
  | .record _ fields => Ty.symbolsOf fields

def Ty.symbolsOf : List Ty → List Symbol
  | [] => []
  | t :: ts => t.symbols ++ Ty.symbolsOf ts

/-- The symbols of an expression and of the types its nodes store. -/
def Expr.symbols : Expr → List Symbol
  | .identifier s t => s :: t.symbols
  | .constant _ t => t.symbols
  | .unary _ x t => x.symbols ++ t.symbols
  | .binary _ l r t => l.symbols ++ (r.symbols ++ t.symbols)
  | .inlineIf c y n t => c.symbols ++ (y.symbols ++ (n.symbols ++ t.symbols))
  | .nary _ es t => Expr.symbolsOf es ++ t.symbols
  | .sync _ channel => channel.symbols

def Expr.symbolsOf : List Expr → List Symbol
  | [] => []
  | e :: es => e.symbols ++ Expr.symbolsOf es

end

/-! ## Laws -/

/-- First the bindings of `σ`, then those of `τ`, also in what `σ` has brought in. -/
def Bindings.andThen (σ τ : Bindings) : Bindings := fun s =>
  match σ s with
  | some argument => some (argument.subst τ)
  | none => τ s

section

variable {σ τ : Bindings}

mutual

theorem Ty.subst_subst (t : Ty) : (t.subst σ).subst τ = t.subst (σ.andThen τ) := by
  cases t with
  | prim k => rfl
  | pre k t => simp only [Ty.subst, Ty.subst_subst t]
  | ref t => simp only [Ty.subst, Ty.subst_subst t]
  | label name t => simp only [Ty.subst, Ty.subst_subst t]
  | range t lower upper =>
      simp only [Ty.subst, Ty.subst_subst t, Expr.subst_subst lower, Expr.subst_subst upper]
  | array sub size => simp only [Ty.subst, Ty.subst_subst sub, Ty.subst_subst size]
  | record labels fields => simp only [Ty.subst, Ty.substAll_substAll fields]

theorem Ty.substAll_substAll (ts : List Ty) :
    Ty.substAll τ (Ty.substAll σ ts) = Ty.substAll (σ.andThen τ) ts := by
  cases ts with
  | nil => rfl
  | cons t ts => simp only [Ty.substAll, Ty.subst_subst t, Ty.substAll_substAll ts]

/-- Two substitutions are one. -/
theorem Expr.subst_subst (e : Expr) : (e.subst σ).subst τ = e.subst (σ.andThen τ) := by
  cases e with
  | identifier s t =>
      have type := Ty.subst_subst t
      cases bound : σ s with
      | some argument => simp only [Expr.subst, Bindings.andThen, bound]
      | none => simp only [Expr.subst, Bindings.andThen, bound, type]
  | constant v t => simp only [Expr.subst, Ty.subst_subst t]
  | unary k x t => simp only [Expr.subst, Expr.subst_subst x, Ty.subst_subst t]
  | binary k l r t =>
      simp only [Expr.subst, Expr.subst_subst l, Expr.subst_subst r, Ty.subst_subst t]
  | inlineIf c y n t =>
      simp only [Expr.subst, Expr.subst_subst c, Expr.subst_subst y, Expr.subst_subst n, Ty.subst_subst t]
  | nary k es t => simp only [Expr.subst, Expr.substAll_substAll es, Ty.subst_subst t]
  | sync k channel => simp only [Expr.subst, Expr.subst_subst channel]

theorem Expr.substAll_substAll (es : List Expr) :
    Expr.substAll τ (Expr.substAll σ es) = Expr.substAll (σ.andThen τ) es := by
  cases es with
  | nil => rfl
  | cons e es => simp only [Expr.substAll, Expr.subst_subst e, Expr.substAll_substAll es]

end

mutual

theorem Ty.subst_congr (t : Ty) (same : ∀ x ∈ t.symbols, σ x = τ x) : t.subst σ = t.subst τ := by
  cases t with
  | prim k => rfl
  | pre k t => simp only [Ty.subst, Ty.subst_congr t same]
  | ref t => simp only [Ty.subst, Ty.subst_congr t same]
  | label name t => simp only [Ty.subst, Ty.subst_congr t same]
  | range t lower upper =>
      obtain ⟨base, bounds⟩ := List.forall_mem_append.mp same
      obtain ⟨first, second⟩ := List.forall_mem_append.mp bounds
      simp only [Ty.subst, Ty.subst_congr t base, Expr.subst_congr lower first,
        Expr.subst_congr upper second]
  | array sub size =>
      obtain ⟨cells, index⟩ := List.forall_mem_append.mp same
      simp only [Ty.subst, Ty.subst_congr sub cells, Ty.subst_congr size index]
  | record labels fields => simp only [Ty.subst, Ty.substAll_congr fields same]

theorem Ty.substAll_congr (ts : List Ty) (same : ∀ x ∈ Ty.symbolsOf ts, σ x = τ x) :
    Ty.substAll σ ts = Ty.substAll τ ts := by
  cases ts with
  | nil => rfl
  | cons t ts =>
      obtain ⟨first, rest⟩ := List.forall_mem_append.mp same
      simp only [Ty.substAll, Ty.subst_congr t first, Ty.substAll_congr ts rest]

/-- Only the symbols of an expression matter. -/
theorem Expr.subst_congr (e : Expr) (same : ∀ x ∈ e.symbols, σ x = τ x) : e.subst σ = e.subst τ := by
  cases e with
  | identifier s t =>
      obtain ⟨symbol, type⟩ := List.forall_mem_cons.mp same
      simp only [Expr.subst, symbol, Ty.subst_congr t type]
  | constant v t => simp only [Expr.subst, Ty.subst_congr t same]
  | unary k x t =>
      obtain ⟨operand, type⟩ := List.forall_mem_append.mp same
      simp only [Expr.subst, Expr.subst_congr x operand, Ty.subst_congr t type]
  | binary k l r t =>
      obtain ⟨left, rest⟩ := List.forall_mem_append.mp same
      obtain ⟨right, type⟩ := List.forall_mem_append.mp rest
      simp only [Expr.subst, Expr.subst_congr l left, Expr.subst_congr r right, Ty.subst_congr t type]
  | inlineIf c y n t =>
      obtain ⟨cond, rest⟩ := List.forall_mem_append.mp same
      obtain ⟨yes, rest⟩ := List.forall_mem_append.mp rest
      obtain ⟨no, type⟩ := List.forall_mem_append.mp rest
      simp only [Expr.subst, Expr.subst_congr c cond, Expr.subst_congr y yes, Expr.subst_congr n no,
        Ty.subst_congr t type]
  | nary k es t =>
      obtain ⟨operands, type⟩ := List.forall_mem_append.mp same
      simp only [Expr.subst, Expr.substAll_congr es operands, Ty.subst_congr t type]
  | sync k channel => simp only [Expr.subst, Expr.subst_congr channel same]

theorem Expr.substAll_congr (es : List Expr) (same : ∀ x ∈ Expr.symbolsOf es, σ x = τ x) :
    Expr.substAll σ es = Expr.substAll τ es := by
  cases es with
  | nil => rfl
  | cons e es =>
      obtain ⟨first, rest⟩ := List.forall_mem_append.mp same
      simp only [Expr.substAll, Expr.subst_congr e first, Expr.substAll_congr es rest]

end

mutual

theorem Ty.subst_none (t : Ty) : (t.subst fun _ => none) = t := by
  cases t with
  | prim k => rfl
  | pre k t => simp only [Ty.subst, Ty.subst_none t]
  | ref t => simp only [Ty.subst, Ty.subst_none t]
  | label name t => simp only [Ty.subst, Ty.subst_none t]
  | range t lower upper =>
      simp only [Ty.subst, Ty.subst_none t, Expr.subst_none lower, Expr.subst_none upper]
  | array sub size => simp only [Ty.subst, Ty.subst_none sub, Ty.subst_none size]
  | record labels fields => simp only [Ty.subst, Ty.substAll_none fields]

theorem Ty.substAll_none (ts : List Ty) : Ty.substAll (fun _ => none) ts = ts := by
  cases ts with
  | nil => rfl
  | cons t ts => simp only [Ty.substAll, Ty.subst_none t, Ty.substAll_none ts]

/-- Without bindings nothing changes. -/
theorem Expr.subst_none (e : Expr) : (e.subst fun _ => none) = e := by
  cases e with
  | identifier s t => simp only [Expr.subst, Ty.subst_none t]
  | constant v t => simp only [Expr.subst, Ty.subst_none t]
  | unary k x t => simp only [Expr.subst, Expr.subst_none x, Ty.subst_none t]
  | binary k l r t => simp only [Expr.subst, Expr.subst_none l, Expr.subst_none r, Ty.subst_none t]
  | inlineIf c y n t =>
      simp only [Expr.subst, Expr.subst_none c, Expr.subst_none y, Expr.subst_none n, Ty.subst_none t]
  | nary k es t => simp only [Expr.subst, Expr.substAll_none es, Ty.subst_none t]
  | sync k channel => simp only [Expr.subst, Expr.subst_none channel]

theorem Expr.substAll_none (es : List Expr) : Expr.substAll (fun _ => none) es = es := by
  cases es with
  | nil => rfl
  | cons e es => simp only [Expr.substAll, Expr.subst_none e, Expr.substAll_none es]

end

/-! ## Symbols that are left -/

/-- The symbol stays, or belongs to an expression that has been put in. -/
def Left (σ : Bindings) (before : List Symbol) (x : Symbol) : Prop :=
  (x ∈ before ∧ σ x = none) ∨ ∃ s ∈ before, ∃ argument, σ s = some argument ∧ x ∈ argument.symbols

theorem Left.mono {before before' : List Symbol} {x : Symbol} (left : Left σ before x)
    (more : ∀ s ∈ before, s ∈ before') : Left σ before' x := by
  rcases left with ⟨inside, unbound⟩ | ⟨s, inside, argument, bound, there⟩
  · exact .inl ⟨more x inside, unbound⟩
  · exact .inr ⟨s, more s inside, argument, bound, there⟩

theorem Left.append {first second : List Symbol} {x : Symbol} {before before' : List Symbol}
    (inside : x ∈ first ++ second) (one : x ∈ first → Left σ before x)
    (other : x ∈ second → Left σ before' x) : Left σ (before ++ before') x := by
  rcases List.mem_append.mp inside with inside | inside
  · exact (one inside).mono fun s listed => List.mem_append_left _ listed
  · exact (other inside).mono fun s listed => List.mem_append_right _ listed

mutual

theorem Ty.left_of_mem {x : Symbol} (t : Ty) (inside : x ∈ (t.subst σ).symbols) :
    Left σ t.symbols x := by
  cases t with
  | prim k => cases inside
  | pre k t => exact Ty.left_of_mem t inside
  | ref t => exact Ty.left_of_mem t inside
  | label name t => exact Ty.left_of_mem t inside
  | range t lower upper =>
      exact Left.append inside (Ty.left_of_mem t) fun inside =>
        Left.append inside (Expr.left_of_mem lower) (Expr.left_of_mem upper)
  | array sub size => exact Left.append inside (Ty.left_of_mem sub) (Ty.left_of_mem size)
  | record labels fields => exact Ty.left_of_memOf fields inside

theorem Ty.left_of_memOf {x : Symbol} (ts : List Ty) (inside : x ∈ Ty.symbolsOf (Ty.substAll σ ts)) :
    Left σ (Ty.symbolsOf ts) x := by
  cases ts with
  | nil => cases inside
  | cons t ts => exact Left.append inside (Ty.left_of_mem t) (Ty.left_of_memOf ts)

theorem Expr.left_of_mem {x : Symbol} (e : Expr) (inside : x ∈ (e.subst σ).symbols) :
    Left σ e.symbols x := by
  cases e with
  | identifier s t =>
      have type := Ty.left_of_mem (x := x) t
      unfold Expr.subst at inside
      cases bound : σ s with
      | some argument =>
          simp only [bound] at inside
          exact .inr ⟨s, List.mem_cons_self, argument, bound, inside⟩
      | none =>
          simp only [bound, Expr.symbols, List.mem_cons] at inside
          rcases inside with rfl | inside
          · exact .inl ⟨List.mem_cons_self, bound⟩
          · exact (type inside).mono fun s listed => List.mem_cons_of_mem _ listed
  | constant v t => exact Ty.left_of_mem t inside
  | unary k x t => exact Left.append inside (Expr.left_of_mem x) (Ty.left_of_mem t)
  | binary k l r t =>
      exact Left.append inside (Expr.left_of_mem l) fun inside =>
        Left.append inside (Expr.left_of_mem r) (Ty.left_of_mem t)
  | inlineIf c y n t =>
      exact Left.append inside (Expr.left_of_mem c) fun inside =>
        Left.append inside (Expr.left_of_mem y) fun inside =>
          Left.append inside (Expr.left_of_mem n) (Ty.left_of_mem t)
  | nary k es t => exact Left.append inside (Expr.left_of_memOf es) (Ty.left_of_mem t)
  | sync k channel => exact Expr.left_of_mem channel inside

theorem Expr.left_of_memOf {x : Symbol} (es : List Expr)
    (inside : x ∈ Expr.symbolsOf (Expr.substAll σ es)) : Left σ (Expr.symbolsOf es) x := by
  cases es with
  | nil => cases inside
  | cons e es => exact Left.append inside (Expr.left_of_mem e) (Expr.left_of_memOf es)

end

/-! ## What the accessors return -/

@[simp] theorem Ty.kind_subst (t : Ty) : (t.subst σ).kind = t.kind := by
  cases t <;> rfl

@[simp] theorem Ty.is_subst (t : Ty) (k : Kind) : (t.subst σ).is k = t.is k := by
  cases t with
  | prim p => rfl
  | pre p t => simp only [Ty.subst, Ty.is, Ty.is_subst t k]
  | ref t => simp only [Ty.subst, Ty.is, Ty.is_subst t k]
  | label name t => simp only [Ty.subst, Ty.is, Ty.is_subst t k]
  | range t lower upper => simp only [Ty.subst, Ty.is, Ty.is_subst t k]
  | array sub size => rfl
  | record labels fields => rfl

@[simp] theorem Ty.isArray_subst (t : Ty) : (t.subst σ).isArray = t.isArray := t.is_subst _

@[simp] theorem Ty.isRange_subst (t : Ty) : (t.subst σ).isRange = t.isRange := t.is_subst _

mutual

@[simp] theorem Ty.isConstant_subst (t : Ty) : (t.subst σ).isConstant = t.isConstant := by
  cases t with
  | prim k => rfl
  | pre k t => simp only [Ty.subst, Ty.isConstant, Ty.isConstant_subst t]
  | ref t => simp only [Ty.subst, Ty.isConstant, Ty.isConstant_subst t]
  | label name t => simp only [Ty.subst, Ty.isConstant, Ty.isConstant_subst t]
  | range t lower upper => simp only [Ty.subst, Ty.isConstant, Ty.isConstant_subst t]
  | array sub size => simp only [Ty.subst, Ty.isConstant, Ty.isConstant_subst sub]
  | record labels fields => simp only [Ty.subst, Ty.isConstant, Ty.allConstant_subst fields]

theorem Ty.allConstant_subst (ts : List Ty) : Ty.allConstant (Ty.substAll σ ts) = Ty.allConstant ts := by
  cases ts with
  | nil => rfl
  | cons t ts => simp only [Ty.substAll, Ty.allConstant, Ty.isConstant_subst t, Ty.allConstant_subst ts]

end

theorem Ty.first?_subst (t : Ty) : (t.subst σ).first? = t.first?.map (Ty.subst σ) := by
  cases t with
  | record labels fields => cases fields <;> rfl
  | _ => rfl

theorem Ty.getArraySize?_subst (t : Ty) :
    (t.subst σ).getArraySize? = t.getArraySize?.map (Ty.subst σ) := by
  cases t with
  | pre k t => exact Ty.getArraySize?_subst t
  | ref t => exact Ty.getArraySize?_subst t
  | label name t => exact Ty.getArraySize?_subst t
  | _ => rfl

theorem Ty.getRange?_subst (t : Ty) :
    (t.subst σ).getRange? = t.getRange?.map fun bounds => (bounds.1.subst σ, bounds.2.subst σ) := by
  cases t with
  | pre k t => exact Ty.getRange?_subst t
  | ref t => exact Ty.getRange?_subst t
  | label name t => exact Ty.getRange?_subst t
  | _ => rfl

theorem Expr.substAll_eq_map (es : List Expr) : Expr.substAll σ es = es.map (Expr.subst σ) := by
  induction es with
  | nil => rfl
  | cons e es ih => rw [Expr.substAll, ih, List.map_cons]

/-- A symbol without a binding stays, and so does everything else. -/
theorem Expr.type_subst {e : Expr} (unbound : ∀ s t, e = .identifier s t → σ s = none) :
    (e.subst σ).type = e.type.subst σ := by
  cases e with
  | identifier s t =>
      rw [Expr.subst, unbound s t rfl]
      rfl
  | _ => rfl

theorem Expr.subs_subst {e : Expr} (other : ∀ s t, e ≠ .identifier s t) :
    (e.subst σ).subs = e.subs.map (Expr.subst σ) := by
  cases e with
  | identifier s t => exact absurd rfl (other s t)
  | nary k es t => exact Expr.substAll_eq_map es
  | _ => rfl

end

end Utot.Utap
