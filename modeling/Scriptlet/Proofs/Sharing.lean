import Scriptlet.Proofs.Handles.Chains

/-!
# Scopes that handles share

A client makes scopes and holds handles to them; several handles may refer to one scope, or to
scopes inside one another, so what is bound or assigned through one of them is seen through others.
`Scopes.Made` lists the stores that come about in this way.

What a name means is settled by one relation: `Scopes.Resolves` walks outward from a scope to the
nearest one that binds the name. All reads and assignments are stated through it
(`Held.get_eq_ok_iff`, `Held.assign_eq_ok_iff`), and a definition changes it only for the scopes
from which the changed scope is the nearest (`resolves_define_iff`).
-/

namespace Scriptlet

namespace Scopes

variable {α : Type} {s s' : Scopes α} {handles : List ScopeId} {name : String}

/-! ## Stores that clients make -/

/-- A store of scopes as clients make it, with the handles they hold. Binding is `define`, for
writable names and for others. An assignment may also fail. -/
inductive Made : Scopes α → List ScopeId → Prop
  | nothing : Made ⟨#[]⟩ []
  | outermost {s : Scopes α} {handles : List ScopeId} : Made s handles →
      Made s.outermost.2 (s.outermost.1 :: handles)
  | child {s : Scopes α} {handles : List ScopeId} {id : ScopeId} : Made s handles →
      id ∈ handles → Made (s.child id).2 ((s.child id).1 :: handles)
  | clone {s : Scopes α} {handles : List ScopeId} {id : ScopeId} : Made s handles →
      id ∈ handles → Made s (id :: handles)
  | enclosing {s : Scopes α} {handles : List ScopeId} {id parent : ScopeId} : Made s handles →
      id ∈ handles → s.parent? id = some parent → Made s (parent :: handles)
  | define {s : Scopes α} {handles : List ScopeId} {id : ScopeId} (name : String) (value : α)
      (writable : Bool) : Made s handles → id ∈ handles →
      Made (s.define id name value writable) handles
  | assign {s : Scopes α} {handles : List ScopeId} {id : ScopeId} (name : String) (value : α) :
      Made s handles → id ∈ handles → Made (s.tryAssign id name value).2 handles

/-- Handles refer to scopes of the store, and parents are older than their children. -/
structure Held (s : Scopes α) (handles : List ScopeId) : Prop where
  has : ∀ id ∈ handles, s.Has id
  older : ∀ id parent, s.parent? id = some parent → parent.index < id.index

theorem has_iff_node? {id : ScopeId} : s.Has id ↔ (s.node? id).isSome = true := by
  simp [Has, node?]

theorem has_of_local? {id : ScopeId} {b : Binding α} (bound : s.local? id name = some b) :
    s.Has id := by
  rw [has_iff_node?]
  cases found : s.node? id with
  | none => simp [Scopes.local?, found] at bound
  | some node => rfl

/-- An added scope is there, and lies inside an older one if it lies inside any. -/
theorem Held.push (held : s.Held handles) {scope : Scope α}
    (inside : ∀ parent, scope.parent = some parent → s.Has parent) :
    (⟨s.nodes.push scope⟩ : Scopes α).Held (⟨s.nodes.size⟩ :: handles) where
  has id mem := by
    have size : (⟨s.nodes.push scope⟩ : Scopes α).nodes.size = s.nodes.size + 1 :=
      Array.size_push scope
    rw [Has, size]
    rcases List.mem_cons.1 mem with rfl | mem
    · exact Nat.lt_succ_self _
    · exact Nat.lt_succ_of_lt (held.has id mem)
  older id parent up := by
    rw [parent?, node?_push] at up
    split at up
    · next new =>
      rw [new]
      exact inside parent up
    · exact held.older id parent up

theorem Held.define (held : s.Held handles) (id : ScopeId) (name : String) (value : α)
    (writable : Bool) : (s.define id name value writable).Held handles where
  has other mem := by
    rw [Has, size_define]
    exact held.has other mem
  older other parent up := by
    rw [parent?_define] at up
    exact held.older other parent up

/-- An attempt to assign leaves the store alone, or defines a name that was to be found anew. -/
theorem tryAssign_eq (id : ScopeId) (name : String) (value : α) :
    (∃ owner, s.target id name = .ok owner ∧
      s.tryAssign id name value = (true, s.define owner name value true)) ∨
    (∃ e, s.target id name = .error e ∧ s.tryAssign id name value = (false, s)) := by
  unfold tryAssign assign
  cases s.target id name with
  | ok owner => exact .inl ⟨owner, rfl, rfl⟩
  | error e => exact .inr ⟨e, rfl, rfl⟩

theorem Made.held (made : s.Made handles) : s.Held handles := by
  induction made with
  | nothing => exact ⟨nofun, nofun⟩
  | outermost _ ih => exact ih.push nofun
  | child _ mem ih =>
    refine ih.push ?_
    rintro parent ⟨rfl⟩
    exact ih.has _ mem
  | clone _ mem ih => exact ⟨List.forall_mem_cons.2 ⟨ih.has _ mem, ih.has⟩, ih.older⟩
  | @enclosing s handles id parent _ mem up ih =>
    refine ⟨List.forall_mem_cons.2 ⟨?_, ih.has⟩, ih.older⟩
    exact Nat.lt_trans (ih.older id parent up) (ih.has id mem)
  | define name value writable _ _ ih => exact ih.define _ name value writable
  | @assign s handles id name value _ _ ih =>
    obtain ⟨owner, -, done⟩ | ⟨e, -, failed⟩ := tryAssign_eq (s := s) id name value
    · rw [done]
      exact ih.define owner name value true
    · rw [failed]
      exact ih

/-! ## What a name resolves to -/

/-- Outward from a scope, `owner` is the nearest one that binds the name, and it binds it so. -/
inductive Resolves (s : Scopes α) (name : String) : ScopeId → ScopeId → Binding α → Prop
  | here {id : ScopeId} {b : Binding α} : s.local? id name = some b → Resolves s name id id b
  | outward {id parent owner : ScopeId} {b : Binding α} : s.local? id name = none →
      s.parent? id = some parent → Resolves s name parent owner b → Resolves s name id owner b

namespace Resolves

variable {id owner owner' : ScopeId} {b b' : Binding α}

theorem local? (h : s.Resolves name id owner b) : s.local? owner name = some b := by
  induction h with
  | here bound => exact bound
  | outward _ _ _ ih => exact ih

theorem eq_of_bound (bound : s.local? id name = some b) (h : s.Resolves name id owner b') :
    id = owner ∧ b = b' := by
  cases h with
  | here bound' => exact ⟨rfl, Option.some.inj (bound.symm.trans bound')⟩
  | outward unbound => cases bound.symm.trans unbound

/-- A name that the scope itself does not bind resolves as it does in the scope around it. -/
theorem of_unbound (unbound : s.local? id name = none) (h : s.Resolves name id owner b) :
    ∃ parent, s.parent? id = some parent ∧ s.Resolves name parent owner b := by
  cases h with
  | here bound => cases unbound.symm.trans bound
  | outward _ up rest => exact ⟨_, up, rest⟩

/-- A name resolves to one binding at most. -/
theorem unique (h : s.Resolves name id owner b) (h' : s.Resolves name id owner' b') :
    owner = owner' ∧ b = b' := by
  induction h with
  | here bound => exact eq_of_bound bound h'
  | outward unbound up _ ih =>
    obtain ⟨parent, up', rest⟩ := of_unbound unbound h'
    cases up.symm.trans up'
    exact ih rest

/-- Scopes that bind the same names and lie inside the same scopes are the nearest ones together. -/
theorem transfer (parents : ∀ id, s'.parent? id = s.parent? id)
    (names : ∀ id, (s'.local? id name).isSome = (s.local? id name).isSome)
    (h : s.Resolves name id owner b) : ∃ b', s'.Resolves name id owner b' := by
  induction h with
  | @here id b bound =>
    have bound' : (s'.local? id name).isSome = true := by rw [names, bound]; rfl
    obtain ⟨b', bound'⟩ := Option.isSome_iff_exists.1 bound'
    exact ⟨b', .here bound'⟩
  | @outward id parent owner b unbound up _ ih =>
    obtain ⟨b', rest⟩ := ih
    have unbound' : (s'.local? id name).isSome = false := by rw [names, unbound]; rfl
    exact ⟨b', .outward (Option.isNone_iff_eq_none.1 (Option.isSome_eq_false_iff.1 unbound'))
      ((parents id).trans up) rest⟩

end Resolves

/-- The nearest scope is found by a search outward. -/
theorem Held.owner?_eq_some_iff (held : s.Held handles) {id owner : ScopeId} :
    s.owner? id name = some owner ↔ ∃ b, s.Resolves name id owner b := by
  obtain ⟨path, chain, -⟩ := exists_chain held.older id
  rw [chain.owner?_eq held.older]
  -- on every way outward the first scope decides, if it binds the name
  have decided {id : ScopeId} {b : Binding α} (outward : List ScopeId)
      (bound : s.local? id name = some b) :
      (id :: outward).find? (s.contains · name) = some owner ↔ ∃ b, s.Resolves name id owner b := by
    have found : (id :: outward).find? (s.contains · name) = some id := by simp [contains, bound]
    rw [found, Option.some.injEq]
    constructor
    · rintro rfl
      exact ⟨b, .here bound⟩
    · rintro ⟨b', resolved⟩
      exact (resolved.eq_of_bound bound).1
  induction chain with
  | @outermost id up =>
    cases bound : s.local? id name with
    | some b => exact decided [] bound
    | none =>
      have nothing : [id].find? (s.contains · name) = none := by simp [contains, bound]
      rw [nothing]
      refine ⟨nofun, ?_⟩
      rintro ⟨b, resolved⟩
      obtain ⟨parent, up', -⟩ := resolved.of_unbound bound
      cases up.symm.trans up'
  | @inside id parent outward up _ ih =>
    cases bound : s.local? id name with
    | some b => exact decided outward bound
    | none =>
      have further : (id :: outward).find? (s.contains · name) =
          outward.find? (s.contains · name) := by simp [contains, bound]
      rw [further]
      refine ih.trans ⟨?_, ?_⟩
      · rintro ⟨b, resolved⟩
        exact ⟨b, .outward bound up resolved⟩
      · rintro ⟨b, resolved⟩
        obtain ⟨parent', up', rest⟩ := resolved.of_unbound bound
        cases up.symm.trans up'
        exact ⟨b, rest⟩

theorem Held.find?_eq_some_iff (held : s.Held handles) {id : ScopeId} {b : Binding α} :
    s.find? id name = some b ↔ ∃ owner, s.Resolves name id owner b := by
  rw [find?, Option.bind_eq_some_iff]
  constructor
  · rintro ⟨owner, found, bound⟩
    obtain ⟨b', resolved⟩ := held.owner?_eq_some_iff.1 found
    cases resolved.local?.symm.trans bound
    exact ⟨owner, resolved⟩
  · rintro ⟨owner, resolved⟩
    exact ⟨owner, held.owner?_eq_some_iff.2 ⟨b, resolved⟩, resolved.local?⟩

/-- Names that resolve to the same bindings, perhaps in other scopes, are found alike. -/
theorem Held.find?_congr (held : s.Held handles) (held' : s'.Held handles) {id : ScopeId}
    (same : ∀ owner b, s'.Resolves name id owner b ↔ s.Resolves name id owner b) :
    s'.find? id name = s.find? id name := by
  refine Option.ext fun b => ?_
  rw [held.find?_eq_some_iff, held'.find?_eq_some_iff]
  exact exists_congr fun owner => same owner b

/-! ## Reading and assigning -/

theorem get_of_find? {id : ScopeId} {b : Binding α} (found : s.find? id name = some b) :
    s.get id name = .ok b.value := by
  rw [get, get?, found]
  rfl

theorem Held.get_eq_ok_iff (held : s.Held handles) {id : ScopeId} {a : α} :
    s.get id name = .ok a ↔ ∃ owner b, s.Resolves name id owner b ∧ b.value = a := by
  constructor
  · intro found
    cases bound : s.find? id name with
    | none => simp [get, get?, bound] at found
    | some b =>
      obtain ⟨owner, resolved⟩ := held.find?_eq_some_iff.1 bound
      exact ⟨owner, b, resolved, Except.ok.inj ((get_of_find? bound).symm.trans found)⟩
  · rintro ⟨owner, b, resolved, rfl⟩
    exact get_of_find? (held.find?_eq_some_iff.2 ⟨owner, resolved⟩)

theorem Held.get_eq_error_iff (held : s.Held handles) {id : ScopeId} {e : ScopeError} :
    s.get id name = .error e ↔ e = .undefined ∧ ∀ owner b, ¬ s.Resolves name id owner b := by
  constructor
  · intro missed
    cases bound : s.find? id name with
    | some b => cases (get_of_find? bound).symm.trans missed
    | none =>
      rw [get, get?, bound] at missed
      refine ⟨(Except.error.inj missed).symm, fun owner b resolved => ?_⟩
      cases bound.symm.trans (held.find?_eq_some_iff.2 ⟨owner, resolved⟩)
  · rintro ⟨rfl, nothing⟩
    have unbound : s.find? id name = none := by
      refine Option.eq_none_iff_forall_ne_some.2 fun b bound => ?_
      obtain ⟨owner, resolved⟩ := held.find?_eq_some_iff.1 bound
      exact nothing owner b resolved
    rw [get, get?, unbound]
    rfl

section
variable {id owner : ScopeId} {b : Binding α} {value : α}

/-- An assignment goes to the nearest binding, if that is writable. -/
theorem Held.assign_of_resolves (held : s.Held handles) (resolved : s.Resolves name id owner b) :
    s.assign id name value =
      if b.writable then .ok (s.define owner name value true) else .error .immutable := by
  simp only [assign, target, held.owner?_eq_some_iff.2 ⟨b, resolved⟩, resolved.local?]
  split <;> rfl

theorem Held.assign_of_unresolved (held : s.Held handles)
    (nothing : ∀ owner b, ¬ s.Resolves name id owner b) :
    s.assign id name value = .error .undefined := by
  have unknown : s.owner? id name = none := by
    refine Option.eq_none_iff_forall_ne_some.2 fun owner found => ?_
    obtain ⟨b, resolved⟩ := held.owner?_eq_some_iff.1 found
    exact nothing owner b resolved
  simp only [assign, target, unknown]
  rfl

theorem Held.assign_eq_ok_iff (held : s.Held handles) :
    s.assign id name value = .ok s' ↔
      ∃ owner b, s.Resolves name id owner b ∧ b.writable = true ∧
        s' = s.define owner name value true := by
  constructor
  · intro done
    by_cases bound : ∃ owner b, s.Resolves name id owner b
    · obtain ⟨owner, b, resolved⟩ := bound
      rw [held.assign_of_resolves resolved] at done
      split at done
      · next writable => exact ⟨owner, b, resolved, writable, (Except.ok.inj done).symm⟩
      · cases done
    · rw [held.assign_of_unresolved (by simpa using bound)] at done
      cases done
  · rintro ⟨owner, b, resolved, writable, rfl⟩
    rw [held.assign_of_resolves resolved, if_pos writable]

theorem Held.assign_eq_error_iff (held : s.Held handles) {e : ScopeError} :
    s.assign id name value = .error e ↔
      (e = .immutable ∧ ∃ owner b, s.Resolves name id owner b ∧ b.writable = false) ∨
      (e = .undefined ∧ ∀ owner b, ¬ s.Resolves name id owner b) := by
  constructor
  · intro failed
    by_cases bound : ∃ owner b, s.Resolves name id owner b
    · obtain ⟨owner, b, resolved⟩ := bound
      rw [held.assign_of_resolves resolved] at failed
      split at failed
      · cases failed
      · next fixed =>
        exact .inl ⟨(Except.error.inj failed).symm, owner, b, resolved, by simpa using fixed⟩
    · have nothing : ∀ owner b, ¬ s.Resolves name id owner b := by simpa using bound
      rw [held.assign_of_unresolved nothing] at failed
      exact .inr ⟨(Except.error.inj failed).symm, nothing⟩
  · rintro (⟨rfl, owner, b, resolved, fixed⟩ | ⟨rfl, nothing⟩)
    · rw [held.assign_of_resolves resolved, fixed]
      rfl
    · exact held.assign_of_unresolved nothing

end

/-! ## Definitions -/

section
variable {id owner : ScopeId} {value : α} {writable : Bool} {b : Binding α}

theorem local?_define_self (there : s.Has id) :
    (s.define id name value writable).local? id name = some ⟨value, writable⟩ := by
  rw [local?_define, if_pos ⟨rfl, rfl, has_iff_node?.1 there⟩]

theorem local?_define_other {other : ScopeId} {wanted : String}
    (apart : ¬ (other = id ∧ wanted = name)) :
    (s.define id name value writable).local? other wanted = s.local? other wanted := by
  rw [local?_define, if_neg]
  rintro ⟨rfl, rfl, -⟩
  exact apart ⟨rfl, rfl⟩

/-- A definition leaves a name alone where the defined binding is not the one that it resolves to
afterwards. -/
theorem resolves_define_iff (there : s.Has id) {wanted : String} {start : ScopeId}
    (apart : ¬ (wanted = name ∧
      ∃ b, (s.define id name value writable).Resolves name start id b)) :
    (s.define id name value writable).Resolves wanted start owner b ↔
      s.Resolves wanted start owner b := by
  let after := s.define id name value writable
  -- no scope on the way is the changed one
  have away {other : ScopeId}
      (apart : ¬ (wanted = name ∧ ∃ b, after.Resolves name other id b)) :
      after.local? other wanted = s.local? other wanted := by
    refine local?_define_other ?_
    rintro ⟨rfl, rfl⟩
    exact apart ⟨rfl, _, .here (local?_define_self there)⟩
  have further {other parent : ScopeId}
      (apart : ¬ (wanted = name ∧ ∃ b, after.Resolves name other id b))
      (unbound : after.local? other wanted = none) (up : after.parent? other = some parent) :
      ¬ (wanted = name ∧ ∃ b, after.Resolves name parent id b) := by
    rintro ⟨rfl, b, rest⟩
    exact apart ⟨rfl, b, .outward unbound up rest⟩
  constructor
  · intro resolved
    induction resolved with
    | here bound => exact .here ((away apart).symm.trans bound)
    | outward unbound up _ ih =>
      have rest := ih (further apart unbound up)
      rw [parent?_define] at up
      exact .outward ((away apart).symm.trans unbound) up rest
  · intro resolved
    induction resolved with
    | here bound => exact .here ((away apart).trans bound)
    | outward unbound up _ ih =>
      have up' := (parent?_define s id _ name value writable).trans up
      have unbound' := (away apart).trans unbound
      exact .outward unbound' up' (ih (further apart unbound' up'))

/-- What a name means after a definition. -/
theorem Held.get_define (held : s.Held handles) (there : s.Has id) (name : String) (value : α)
    (writable : Bool) (start : ScopeId) (wanted : String) :
    (wanted = name → (∃ b, (s.define id name value writable).Resolves name start id b) →
      (s.define id name value writable).get start wanted = .ok value) ∧
    (¬ (wanted = name ∧ ∃ b, (s.define id name value writable).Resolves name start id b) →
      (s.define id name value writable).get start wanted = s.get start wanted) := by
  have held' := held.define id name value writable
  constructor
  · rintro rfl ⟨b, resolved⟩
    have written := resolved.local?.symm.trans (local?_define_self there)
    cases written
    exact held'.get_eq_ok_iff.2 ⟨id, _, resolved, rfl⟩
  · intro apart
    have same := held.find?_congr held' fun owner b => resolves_define_iff there apart
    rw [get, get, get?, get?, same]

end

/-- Replacing the value of a writable binding leaves scopes and names as they are. -/
structure SameNames (s s' : Scopes α) : Prop where
  parents : ∀ id, s'.parent? id = s.parent? id
  bindings : ∀ id name, (s'.local? id name).map (·.writable) = (s.local? id name).map (·.writable)

theorem SameNames.resolves_iff (same : SameNames s s') {id owner : ScopeId} :
    (∃ b, s'.Resolves name id owner b) ↔ ∃ b, s.Resolves name id owner b := by
  have names (id : ScopeId) : (s'.local? id name).isSome = (s.local? id name).isSome := by
    simpa using congrArg Option.isSome (same.bindings id name)
  constructor
  · rintro ⟨b, resolved⟩
    exact resolved.transfer (fun id => (same.parents id).symm) fun id => (names id).symm
  · rintro ⟨b, resolved⟩
    exact resolved.transfer same.parents names

theorem sameNames_define {owner : ScopeId} {b : Binding α}
    (bound : s.local? owner name = some b) (writable : b.writable = true) (value : α) :
    SameNames s (s.define owner name value true) where
  parents id := parent?_define s owner id name value true
  bindings id wanted := by
    by_cases here : id = owner ∧ wanted = name
    · obtain ⟨rfl, rfl⟩ := here
      rw [local?_define_self (has_of_local? bound), bound, Option.map_some, Option.map_some, writable]
    · rw [local?_define_other here]

/-- From two scopes the nearest one that binds a name is the same. -/
def Together (s : Scopes α) (name : String) (id other : ScopeId) : Prop :=
  ∃ owner, (∃ b, s.Resolves name id owner b) ∧ ∃ b, s.Resolves name other owner b

/-! ## The laws -/

/-- What names mean through a handle, and how that changes when something is assigned or defined
through another. -/
theorem meanings_through_handles (made : s.Made handles) {h : ScopeId} (mem : h ∈ handles)
    (h' : ScopeId) (x y : String) (v : α) :
    -- a name means the nearest binding
    (∀ a, s.get h x = .ok a ↔ ∃ owner b, s.Resolves x h owner b ∧ b.value = a) ∧
    (∀ e, s.get h x = .error e ↔ e = .undefined ∧ ∀ owner b, ¬ s.Resolves x h owner b) ∧
    s.get? h x = (s.get h x).toOption ∧
    -- an assignment fails for two reasons, and then changes nothing
    ((∃ s', s.assign h x v = .ok s') ↔ ∃ owner b, s.Resolves x h owner b ∧ b.writable = true) ∧
    (s.assign h x v = .error .immutable ↔
      ∃ owner b, s.Resolves x h owner b ∧ b.writable = false) ∧
    (s.assign h x v = .error .undefined ↔ ∀ owner b, ¬ s.Resolves x h owner b) ∧
    (∀ e, s.assign h x v = .error e → s.tryAssign h x v = (false, s)) ∧
    -- one that succeeds is seen where the name is the same binding, and nowhere else
    (∀ s', s.assign h x v = .ok s' →
      s.tryAssign h x v = (true, s') ∧ s.SameNames s' ∧
      (y = x → s.Together x h h' → s'.get h' y = .ok v) ∧
      (¬ (y = x ∧ s.Together x h h') → s'.get h' y = s.get h' y)) ∧
    -- a definition is seen where it is the nearest one, and nowhere else
    ∀ writable, let s' := s.define h x v writable
      (y = x → (∃ b, s'.Resolves x h' h b) → s'.get h' y = .ok v) ∧
      (¬ (y = x ∧ ∃ b, s'.Resolves x h' h b) → s'.get h' y = s.get h' y) := by
  have held := made.held
  refine ⟨fun a => held.get_eq_ok_iff, fun e => held.get_eq_error_iff, ?_, ?_, ?_, ?_,
    fun e failed => ?_, fun s' done => ?_,
    fun writable => held.get_define (held.has h mem) x v writable h' y⟩
  · rw [get]
    cases s.get? h x <;> rfl
  · simp only [held.assign_eq_ok_iff]
    constructor
    · rintro ⟨s', owner, b, resolved, writable, -⟩
      exact ⟨owner, b, resolved, writable⟩
    · rintro ⟨owner, b, resolved, writable⟩
      exact ⟨_, owner, b, resolved, writable, rfl⟩
  · simp [held.assign_eq_error_iff]
  · simp [held.assign_eq_error_iff]
  · rw [tryAssign, failed]
  · have tried : s.tryAssign h x v = (true, s') := by rw [tryAssign, done]
    obtain ⟨owner, b, resolved, writable, rfl⟩ := held.assign_eq_ok_iff.1 done
    have same := sameNames_define resolved.local? writable v
    have seen : (∃ b, (s.define owner x v true).Resolves x h' owner b) ↔ s.Together x h h' := by
      rw [same.resolves_iff]
      constructor
      · intro there
        exact ⟨owner, ⟨b, resolved⟩, there⟩
      · rintro ⟨owner', ⟨b', resolved'⟩, there⟩
        rwa [(resolved.unique resolved').1]
    have after := held.get_define (has_of_local? resolved.local?) x v true h' y
    rw [seen] at after
    exact ⟨tried, same, after⟩

/-- Two scopes side by side in one that binds `n`. -/
def siblings : Scopes Nat :=
  (((Scopes.outermost ⟨#[]⟩).2.define ⟨0⟩ "n" 1 true).child ⟨0⟩).2.child ⟨0⟩ |>.2

/-- An assignment in one of two siblings is seen in the other; a definition is not. -/
theorem siblings_share_outer_names :
    siblings.Made [⟨2⟩, ⟨1⟩, ⟨0⟩] ∧ (⟨1⟩ : ScopeId) ∈ [(⟨2⟩ : ScopeId), ⟨1⟩, ⟨0⟩] ∧
    siblings.get ⟨2⟩ "n" = .ok 1 ∧
    (∃ s', siblings.assign ⟨1⟩ "n" 7 = .ok s' ∧ s'.get ⟨2⟩ "n" = .ok 7) ∧
    (siblings.define ⟨1⟩ "n" 7 false).get ⟨2⟩ "n" = siblings.get ⟨2⟩ "n" := by
  have outer : Made _ [⟨0⟩] := .define "n" 1 true (.outermost .nothing) List.mem_cons_self
  have made : siblings.Made [⟨2⟩, ⟨1⟩, ⟨0⟩] :=
    (outer.child List.mem_cons_self).child (by decide)
  have mem : (⟨1⟩ : ScopeId) ∈ [(⟨2⟩ : ScopeId), ⟨1⟩, ⟨0⟩] := by decide
  have first : siblings.Resolves "n" ⟨1⟩ ⟨0⟩ ⟨1, true⟩ := .outward rfl rfl (.here rfl)
  have second : siblings.Resolves "n" ⟨2⟩ ⟨0⟩ ⟨1, true⟩ := .outward rfl rfl (.here rfl)
  obtain ⟨-, -, -, writes, -, -, -, assigned, defined⟩ :=
    meanings_through_handles made mem ⟨2⟩ "n" "n" 7
  obtain ⟨s', done⟩ := writes.2 ⟨⟨0⟩, _, first, rfl⟩
  have shared := (assigned s' done).2.2.1 rfl ⟨⟨0⟩, ⟨_, first⟩, _, second⟩
  have apart : ¬ ∃ b, (siblings.define ⟨1⟩ "n" 7 false).Resolves "n" ⟨2⟩ ⟨1⟩ b := by
    rintro ⟨b, resolved⟩
    obtain ⟨parent, up, rest⟩ := resolved.of_unbound rfl
    cases up
    cases (rest.eq_of_bound rfl).1
  refine ⟨made, mem, ?_, ⟨s', done, shared⟩, (defined false).2 fun both => apart both.2⟩
  exact made.held.get_eq_ok_iff.2 ⟨⟨0⟩, _, second, rfl⟩

end Scopes
end Scriptlet
