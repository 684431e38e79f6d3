import Scriptlet.Proofs.Footprint
import Mathlib.Data.Option.Basic

/-!
# Declarations are confined to the current scope

An expression can run any code through calls, constructors and field defaults, and that code
declares names and assigns to shared variables. Still no scope that existed before gets or loses a
name, changes its parent, or lets go of a constant: only the values of writable bindings may differ
afterwards (`Scopes.Kept`). A block is as harmless as an expression, and a declaration touches one
name of the scope it stands in. `declarations_confined` is the main statement.
-/

namespace Scriptlet

/-- What an assignment leaves of a binding: whether it is writable, and its value if it is not. -/
structure Binding.Kept {α : Type} (b b' : Binding α) : Prop where
  writable : b'.writable = b.writable
  value : b.writable = false → b'.value = b.value

theorem Binding.Kept.refl {α : Type} (b : Binding α) : b.Kept b := ⟨rfl, fun _ => rfl⟩

theorem Binding.Kept.trans {α : Type} {a b c : Binding α} (h₁ : a.Kept b) (h₂ : b.Kept c) :
    a.Kept c := by
  refine ⟨h₂.writable.trans h₁.writable, fun constant => ?_⟩
  exact (h₂.value (h₁.writable.trans constant)).trans (h₁.value constant)

namespace Scopes

variable {α : Type} {except : ScopeId → String → Prop} {s s' s'' : Scopes α}

/-- The scopes of `s` are all there in `s'`, with the same parents and names and the same
constants. The names in `except` may differ in any way. -/
structure Kept (except : ScopeId → String → Prop) (s s' : Scopes α) : Prop where
  size_le : s.nodes.size ≤ s'.nodes.size
  parent : ∀ id : ScopeId, id.index < s.nodes.size → s'.parent? id = s.parent? id
  binding : ∀ (id : ScopeId) name, id.index < s.nodes.size → ¬ except id name →
    Option.Rel Binding.Kept (s.local? id name) (s'.local? id name)

theorem rel_refl (o : Option (Binding α)) : Option.Rel Binding.Kept o o := by
  cases o with
  | none => exact .none
  | some b => exact .some (.refl b)

theorem rel_trans {a b c : Option (Binding α)} (h₁ : Option.Rel Binding.Kept a b)
    (h₂ : Option.Rel Binding.Kept b c) : Option.Rel Binding.Kept a c := by
  cases h₁ with
  | none => exact h₂
  | some h₁ =>
    cases h₂ with
    | some h₂ => exact .some (h₁.trans h₂)

theorem Kept.refl (s : Scopes α) : Kept except s s :=
  ⟨Nat.le_refl _, fun _ _ => rfl, fun _ _ _ _ => rel_refl _⟩

theorem Kept.trans (h₁ : Kept except s s') (h₂ : Kept except s' s'') : Kept except s s'' := by
  refine ⟨Nat.le_trans h₁.size_le h₂.size_le, fun id old => ?_, fun id name old kept => ?_⟩
  · exact (h₂.parent id (Nat.lt_of_lt_of_le old h₁.size_le)).trans (h₁.parent id old)
  · exact rel_trans (h₁.binding id name old kept)
      (h₂.binding id name (Nat.lt_of_lt_of_le old h₁.size_le) kept)

/-- Exceptions may be forgotten at scopes that do not exist yet, and added anywhere. -/
theorem Kept.weaken {except' : ScopeId → String → Prop} (h : Kept except s s')
    (hex : ∀ (id : ScopeId) name, id.index < s.nodes.size → except id name → except' id name) :
    Kept except' s s' :=
  ⟨h.size_le, h.parent, fun id name old kept =>
    h.binding id name old fun e => kept (hex id name old e)⟩

/-- A change to a scope younger than `s` is no change to the scopes of `s`. -/
theorem Kept.trans_fresh {id : ScopeId} (h₁ : Kept (fun _ _ => False) s s')
    (fresh : s.nodes.size ≤ id.index) (h₂ : Kept (fun other _ => other = id) s' s'') :
    Kept (fun _ _ => False) s s'' := by
  refine ((h₁.weaken fun _ _ _ => False.elim).trans h₂).weaken ?_
  rintro other name old rfl
  exact absurd old (Nat.not_lt.mpr fresh)

theorem kept_child (s : Scopes α) (parent : ScopeId) : Kept except s (s.child parent).2 := by
  have same (id : ScopeId) (old : id.index < s.nodes.size) :
      (s.child parent).2.node? id = s.node? id := by
    rw [node?_child, if_neg]
    rintro rfl
    exact Nat.lt_irrefl _ old
  refine ⟨by simp, fun id old => ?_, fun id name old _ => ?_⟩
  · rw [parent?, parent?, same id old]
  · rw [local?, local?, same id old]
    exact rel_refl _

theorem kept_define (s : Scopes α) (id : ScopeId) (name : String) (value : α) (writable : Bool)
    (hex : id.index < s.nodes.size → except id name) :
    Kept except s (s.define id name value writable) := by
  refine ⟨by simp, fun other _ => parent?_define .., fun other wanted old kept => ?_⟩
  rw [local?_define, if_neg]
  · exact rel_refl _
  · rintro ⟨rfl, rfl, -⟩
    exact kept (hex old)

/-- An assignment finds a writable binding and leaves a writable one in its place. -/
theorem kept_assign {from_ owner : ScopeId} {name : String} (value : α)
    (h : s.target from_ name = .ok owner) : Kept except s (s.define owner name value true) := by
  -- the target of an assignment has been checked to be writable
  obtain ⟨b, bound, writable⟩ : ∃ b, s.local? owner name = some b ∧ b.writable = true := by
    unfold target at h
    split at h
    · cases h
    · split at h
      · cases h
      · rename_i found _ b bound
        split at h
        · rename_i writable
          injection h with h
          subst h
          exact ⟨b, bound, writable⟩
        · cases h
  refine ⟨by simp, fun other _ => parent?_define .., fun other wanted old kept => ?_⟩
  rw [local?_define]
  split
  · rename_i at_
    obtain ⟨rfl, rfl, -⟩ := at_
    rw [bound]
    refine .some ⟨writable.symm, fun constant => ?_⟩
    rw [writable] at constant
    cases constant
  · exact rel_refl _

end Scopes

/-! ## The footprint -/

/-- No scope changes but for the values of its variables. -/
def Machine.Untouched (m m' : Machine) : Prop :=
  Scopes.Kept (fun _ _ => False) m.scopes m'.scopes

/-- Expressions leave all scopes alone, statements all but the current one. -/
def Footprint.confinement : Footprint where
  expr m m' := m'.scope = m.scope ∧ m.Untouched m'
  stmt m m' := m'.scope = m.scope ∧ Scopes.Kept (fun id _ => id = m.scope) m.scopes m'.scopes
  refl _ := ⟨rfl, .refl _⟩
  trans h₁ h₂ := ⟨h₂.1.trans h₁.1, h₁.2.trans h₂.2⟩
  stmt_trans h₁ h₂ := ⟨h₂.1.trans h₁.1, h₁.2.trans (h₁.1 ▸ h₂.2)⟩
  widen h := ⟨h.1, h.2.weaken fun _ _ _ => False.elim⟩
  size_le h := h.2.size_le
  heap _ _ := ⟨rfl, .refl _⟩
  console _ _ := ⟨rfl, .refl _⟩
  clock _ := ⟨rfl, .refl _⟩
  child m parent := ⟨rfl, Scopes.kept_child m.scopes parent⟩
  assign _ _ _ value h := ⟨rfl, Scopes.kept_assign value h⟩
  declare m name value writable :=
    ⟨rfl, Scopes.kept_define m.scopes m.scope name value writable fun _ => rfl⟩
  define_fresh id name value writable h fresh :=
    ⟨h.1, h.2.trans_fresh fresh (Scopes.kept_define _ id name value writable fun _ => rfl)⟩
  within_fresh _ h fresh inside := ⟨h.1, h.2.trans_fresh fresh inside.2⟩
  deeper h := h

/-! ## Declarations -/

/-- The name that a declaration binds, and whether it may be assigned to. -/
def Stmt.declares? : Stmt → Option (String × Bool)
  | .declare name _ constant => some (name.text, !constant)
  | .function decl => some (decl.name.text, true)
  | .classDecl decl => some (decl.name.text, true)
  | _ => none

/-- The effect of a declaration of `name` on the scopes: it binds the name in the current scope once
its value is known, and does nothing else. If it stops before, it does nothing at all. -/
structure Declares (name : String) (writable : Bool) (m : Machine)
    (result : EStateM.Result Stop Machine Flow) : Prop where
  bound : ∀ flow m', result = .ok flow m' →
    Scopes.Kept (fun id x => id = m.scope ∧ x = name) m.scopes m'.scopes ∧
    (m.scope.index < m.scopes.nodes.size →
      ∃ value, m'.scopes.local? m.scope name = some ⟨value, writable⟩)
  stopped : ∀ why m', result = .error why m' → m.Untouched m'

/-- Binding a name in the current scope of a machine whose scopes were left alone so far. -/
theorem Declares.of_ok {m m₁ m' : Machine} {name : String} {value : Value} {writable : Bool}
    {flow : Flow} (h : Footprint.confinement.expr m m₁)
    (scopes : m'.scopes = m₁.scopes.define m₁.scope name value writable) :
    Declares name writable m (.ok flow m') := by
  refine ⟨fun flow' m₂ same => ?_, fun why m₂ same => by cases same⟩
  injection same with _ same
  rw [← same, scopes, h.1]
  refine ⟨(h.2.weaken fun _ _ _ => False.elim).trans
    (Scopes.kept_define _ _ _ _ _ fun _ => ⟨rfl, rfl⟩), fun old => ⟨value, ?_⟩⟩
  have there : (m₁.scopes.node? m.scope).isSome := by
    have := Nat.lt_of_lt_of_le old h.2.size_le
    simpa [Scopes.node?] using this
  rw [Scopes.local?_define, if_pos ⟨rfl, rfl, there⟩]

theorem Declares.of_error {m m' : Machine} {name : String} {writable : Bool} {why : Stop}
    (h : Footprint.confinement.expr m m') : Declares name writable m (.error why m') := by
  refine ⟨fun flow m₂ same => (by cases same), fun why' m₂ same => ?_⟩
  injection same with _ same
  exact same ▸ h.2

/-- A declaration that first computes something: it may stop there, else it binds the name. -/
theorem Declares.of_bind {α : Type} {m : Machine} {r : Run α} {name : String} {writable : Bool}
    {k : α → Run Flow} (hr : Footprint.confinement.expr m (r.after m))
    (hk : ∀ a m₁, Footprint.confinement.expr m m₁ → Declares name writable m (k a m₁)) :
    Declares name writable m ((r >>= k) m) := by
  cases hrm : r m with
  | ok a m₁ =>
    rw [bind_of_ok hrm]
    exact hk a m₁ (Run.after_eq_of_ok hrm ▸ hr)
  | error e m₁ =>
    rw [bind_of_error hrm]
    exact .of_error (Run.after_eq_of_error hrm ▸ hr)

theorem declares_exec (host : Host) (n : Nat) (s : Stmt) (m : Machine) {name : String}
    {writable : Bool} (hs : s.declares? = some (name, writable)) :
    Declares name writable m (Stmt.exec host n s m) := by
  have start := Footprint.confinement.refl m
  cases n with
  | zero => exact .of_error start
  | succ n =>
    cases s with
    | declare x value constant =>
      cases hs
      unfold Stmt.exec
      cases value with
      | none => exact .of_ok start rfl
      | some e =>
        have evaluated := (Footprint.confinement.respects host n).eval e m
        exact .of_bind evaluated fun v m₁ h => .of_ok h rfl
    | function decl =>
      cases hs
      unfold Stmt.exec
      exact .of_ok start rfl
    | classDecl decl =>
      cases hs
      unfold Stmt.exec Run.declareClass
      dsimp only
      cases decl.superclass with
      | none => exact .of_ok start rfl
      | some superclass =>
        simp only [map_eq_pure_bind, bind_assoc, pure_bind]
        have found := Footprint.evaluates_superclass (f := .confinement) superclass m
        exact .of_bind found fun id m₁ h => .of_ok h rfl
    | _ => cases hs

/-- **Confinement.** Evaluating an expression or executing a block leaves every scope that existed
before with the same names, the same parent and the same constants. A declaration in addition binds
the one name it declares, in the scope it stands in. The host is pure (`Host`), so its functions
reach no scope. -/
theorem declarations_confined (host : Host) (n : Nat) (m : Machine) :
    (∀ e, m.Untouched ((Expr.eval host n e).after m)) ∧
    (∀ body, m.Untouched ((Stmt.exec host n (.block body)).after m)) ∧
    ∀ s name writable, s.declares? = some (name, writable) →
      Declares name writable m (Stmt.exec host n s m) := by
  refine ⟨fun e => ((Footprint.confinement.respects host n).eval e m).2, fun body => ?_,
    fun s name writable => declares_exec host n s m⟩
  cases n with
  | zero => exact .refl _
  | succ n => exact ((Footprint.confinement.respects host n).block_succ body m).2

/-- The constant `limit` declared at the start of a session is bound outside all blocks, and bound
for good. -/
theorem constant_confined :
    let m := Machine.start {} (.still 0)
    let s := Stmt.declare ⟨"limit", .nowhere⟩ (some (.literal .nowhere (.bool true))) true
    s.declares? = some ("limit", false) ∧ m.scope.index < m.scopes.nodes.size ∧
      ∃ m', Stmt.exec Host.none 2 s m = .ok .next m' ∧
        Scopes.Kept (fun id x => id = m.scope ∧ x = "limit") m.scopes m'.scopes ∧
        ∃ value, m'.scopes.local? m.scope "limit" = some ⟨value, false⟩ := by
  intro m s
  have existing : m.scope.index < m.scopes.nodes.size := by decide
  have effect := (declarations_confined Host.none 2 m).2.2 s "limit" false rfl
  obtain ⟨kept, bound⟩ := effect.bound .next ((Stmt.exec Host.none 2 s).after m) rfl
  exact ⟨rfl, existing, _, rfl, kept, bound existing⟩

end Scriptlet
