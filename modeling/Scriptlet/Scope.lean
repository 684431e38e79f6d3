import Scriptlet.Dict
import Scriptlet.Text.Quoted

/-!
# Scopes

Scopes form a tree that only grows: a scope is created inside an existing one and keeps it as its
parent for ever. A store holds all scopes ever created, and a `ScopeId` is a handle to one of them;
copies of a handle share the scope. A name means its binding in the nearest scope that has one,
starting from the scope in question and going outward.

Parents are older than their children, so walking outward ends; the walk follows a parent only if it
is older, which makes it end on every store.
-/

namespace Scriptlet

/-- A handle to a scope. -/
structure ScopeId where
  index : Nat
deriving DecidableEq, Repr, Inhabited

/-- What a name is bound to in one scope. -/
structure Binding (α : Type) where
  value : α
  /-- Whether an assignment may replace the value. -/
  writable : Bool
deriving DecidableEq, Repr

/-- The bindings of one scope, and the scope around it. -/
structure Scope (α : Type) where
  bindings : Dict (Binding α)
  parent : Option ScopeId
deriving DecidableEq, Repr

/-- Why an assignment failed. -/
inductive ScopeError where
  /-- The nearest binding is not writable. -/
  | immutable
  /-- No scope binds the name. -/
  | undefined
deriving DecidableEq, Repr

/-- All scopes, in the order of their creation. -/
structure Scopes (α : Type) where
  nodes : Array (Scope α)
deriving DecidableEq, Repr

namespace Scopes

variable {α : Type}

/-- The store with one scope, which has no parent and no bindings. -/
def root : Scopes α := ⟨#[⟨.empty, none⟩]⟩

/-- The handle to the scope of `root`. -/
def rootId : ScopeId := ⟨0⟩

def node? (s : Scopes α) (id : ScopeId) : Option (Scope α) := s.nodes[id.index]?

/-- A new scope without bindings that lies inside no other. -/
def outermost (s : Scopes α) : ScopeId × Scopes α :=
  (⟨s.nodes.size⟩, ⟨s.nodes.push ⟨.empty, none⟩⟩)

/-- A new scope without bindings inside `parent`. -/
def child (s : Scopes α) (parent : ScopeId) : ScopeId × Scopes α :=
  (⟨s.nodes.size⟩, ⟨s.nodes.push ⟨.empty, some parent⟩⟩)

/-- The scope around a scope. -/
def parent? (s : Scopes α) (id : ScopeId) : Option ScopeId := (s.node? id).bind (·.parent)

/-- The parent of a scope, if it is older than the scope. -/
def olderParent? (s : Scopes α) (id : ScopeId) : Option ScopeId :=
  (s.parent? id).filter (·.index < id.index)

theorem olderParent?_lt {s : Scopes α} {id p : ScopeId} (h : s.olderParent? id = some p) :
    p.index < id.index := by
  simp only [olderParent?, Option.filter_eq_some_iff, decide_eq_true_eq] at h
  exact h.2

/-- How many scopes lie around a scope. -/
def depth (s : Scopes α) (id : ScopeId) : Nat :=
  match h : s.olderParent? id with
  | none => 0
  | some p => s.depth p + 1
termination_by id.index
decreasing_by exact olderParent?_lt h

/-- The binding of a name in one scope. -/
def local? (s : Scopes α) (id : ScopeId) (name : String) : Option (Binding α) :=
  (s.node? id).bind (·.bindings.get? name)

/-- Whether a scope itself binds a name. -/
def contains (s : Scopes α) (id : ScopeId) (name : String) : Bool := (s.local? id name).isSome

/-- The nearest scope that binds a name. -/
def owner? (s : Scopes α) (id : ScopeId) (name : String) : Option ScopeId :=
  if s.contains id name then some id
  else match _h : s.olderParent? id with
    | none => none
    | some p => s.owner? p name
termination_by id.index
decreasing_by exact olderParent?_lt _h

/-- The nearest binding of a name. -/
def find? (s : Scopes α) (id : ScopeId) (name : String) : Option (Binding α) :=
  (s.owner? id name).bind (s.local? · name)

/-- What a name means in a scope. -/
def get? (s : Scopes α) (id : ScopeId) (name : String) : Option α := (s.find? id name).map (·.value)

/-- The same, with the reason if it means nothing. -/
def get (s : Scopes α) (id : ScopeId) (name : String) : Except ScopeError α :=
  match s.get? id name with
  | some value => .ok value
  | none => .error .undefined

/-- Bind a name in a scope; a binding that the scope already has is replaced. -/
def define (s : Scopes α) (id : ScopeId) (name : String) (value : α) (writable : Bool) : Scopes α :=
  ⟨s.nodes.modify id.index fun scope =>
    { scope with bindings := scope.bindings.insert name ⟨value, writable⟩ }⟩

/-- The scope that an assignment to a name changes: the nearest one that binds it, provided that the
binding is writable. -/
def target (s : Scopes α) (id : ScopeId) (name : String) : Except ScopeError ScopeId :=
  match s.owner? id name with
  | none => .error .undefined
  | some owner =>
    match s.local? owner name with
    | none => .error .undefined
    | some binding => if binding.writable then .ok owner else .error .immutable

/-- Replace the value of the nearest binding of a name. -/
def assign (s : Scopes α) (id : ScopeId) (name : String) (value : α) :
    Except ScopeError (Scopes α) :=
  (s.target id name).map fun owner => s.define owner name value true

/-- Replace the value of the nearest binding of a name if there is one and it is writable, and say
whether there is. -/
def tryAssign (s : Scopes α) (id : ScopeId) (name : String) (value : α) : Bool × Scopes α :=
  match s.assign id name value with
  | .ok assigned => (true, assigned)
  | .error _ => (false, s)

/-- The names bound in a scope itself, in order. -/
def names (s : Scopes α) (id : ScopeId) : List String :=
  match s.node? id with
  | some scope => scope.bindings.sortedKeys
  | none => []

/-- A scope for people: its names and its depth. -/
def text (s : Scopes α) (id : ScopeId) : String :=
  "Environment \x7b locals: [" ++ ", ".intercalate ((s.names id).map Text.quoted) ++ "], depth: " ++
    toString (s.depth id) ++ " \x7d"

/-! ## Lookup after a change -/

@[simp] theorem size_child (s : Scopes α) (parent : ScopeId) :
    (s.child parent).2.nodes.size = s.nodes.size + 1 := by
  simp [child]

@[simp] theorem size_define (s : Scopes α) (id : ScopeId) (name : String) (value : α)
    (writable : Bool) : (s.define id name value writable).nodes.size = s.nodes.size := by
  simp [define]

/-- A scope that is added is new; all others are as before. -/
theorem node?_push (s : Scopes α) (scope : Scope α) (other : ScopeId) :
    (⟨s.nodes.push scope⟩ : Scopes α).node? other =
      if other = ⟨s.nodes.size⟩ then some scope else s.node? other := by
  have key : other = ⟨s.nodes.size⟩ ↔ other.index = s.nodes.size := by
    cases other; simp
  by_cases h : other.index = s.nodes.size
  · rw [if_pos (key.2 h)]; simp [node?, h]
  · rw [if_neg (fun e => h (key.1 e))]; simp [node?, Array.getElem?_push, h]

/-- A new scope is empty and lies inside `parent`; all others are as before. -/
theorem node?_child (s : Scopes α) (parent other : ScopeId) :
    (s.child parent).2.node? other =
      if other = (s.child parent).1 then some ⟨.empty, some parent⟩ else s.node? other :=
  s.node?_push _ other

theorem node?_define (s : Scopes α) (id other : ScopeId) (name : String) (value : α)
    (writable : Bool) :
    (s.define id name value writable).node? other =
      if id = other then
        (s.node? other).map fun scope =>
          { scope with bindings := scope.bindings.insert name ⟨value, writable⟩ }
      else s.node? other := by
  have key : id = other ↔ id.index = other.index := by
    cases id; cases other; simp
  by_cases h : id.index = other.index <;> simp [define, node?, Array.getElem?_modify, key, h]

theorem parent?_define (s : Scopes α) (id other : ScopeId) (name : String) (value : α)
    (writable : Bool) : (s.define id name value writable).parent? other = s.parent? other := by
  rw [parent?, parent?, node?_define]
  split
  · cases s.node? other <;> rfl
  · rfl

theorem local?_define (s : Scopes α) (id other : ScopeId) (name wanted : String) (value : α)
    (writable : Bool) :
    (s.define id name value writable).local? other wanted =
      if id = other ∧ name = wanted ∧ (s.node? other).isSome then some ⟨value, writable⟩
      else s.local? other wanted := by
  rw [local?, local?, node?_define]
  by_cases h : id = other
  · cases hn : s.node? other with
    | none => simp
    | some scope => by_cases hw : name = wanted <;> simp [h, hw, Dict.get?_insert]
  · simp [h]

end Scopes
end Scriptlet
