import Scriptlet.Proofs.Footprint

/-!
# Expressions that only read

An expression without calls, assignments and `++` or `--` in it only reads (`Expr.onlyReads`):
evaluating it does nothing but add arrays (`reads_eval`). Together with the other steps that binding
a class to an object takes, it leaves alone everything that was there before, except the fields of
the object and scopes that are named (`Machine.Spares`).
-/

namespace Scriptlet

/-! ## Expressions that only read -/

mutual

/-- Whether an expression has no call, no assignment and no `++` or `--` in it. -/
def Expr.onlyReads : Expr → Bool
  | .literal .. | .ident _ => true
  | .group _ inner => inner.onlyReads
  | .array _ elements => Expr.allOnlyRead elements
  | .unary _ _ operand => operand.onlyReads
  | .binary _ _ left right | .logical _ _ left right => left.onlyReads && right.onlyReads
  | .ternary _ condition yes no => condition.onlyReads && yes.onlyReads && no.onlyReads
  | .index _ target position => target.onlyReads && position.onlyReads
  | .field _ target _ => target.onlyReads
  | .stepThenTake .. | .takeThenStep .. | .assign .. | .call .. => false

def Expr.allOnlyRead : List Expr → Bool
  | [] => true
  | e :: rest => e.onlyReads && Expr.allOnlyRead rest

end

namespace Run

variable {α β : Type}

/-- A step that does nothing but add arrays on its way to a value. -/
def Reads (r : Run α) : Prop :=
  ∀ m a m', r m = .ok a m' → ∃ added,
    m' = { m with heap := { m.heap with arrays := m.heap.arrays ++ added } }

theorem Reads.unchanged {r : Run α} (same : ∀ m a m', r m = .ok a m' → m' = m) : r.Reads := by
  intro m a m' ran
  refine ⟨#[], ?_⟩
  rw [same m a m' ran, Array.append_empty]

theorem reads_pure (a : α) : Reads (pure a) := by
  refine .unchanged fun m b m' ran => ?_
  cases ran
  rfl

theorem reads_stop (why : Stop) : Reads (stop why : Run α) := nofun

theorem Reads.bind {r : Run α} {k : α → Run β} (hr : r.Reads) (hk : ∀ a, (k a).Reads) :
    (r >>= k).Reads := by
  intro m b m' ran
  obtain ⟨a, m₁, first, second⟩ := bind_eq_ok ran
  obtain ⟨added₁, rfl⟩ := hr m a m₁ first
  obtain ⟨added₂, rfl⟩ := hk a _ b m' second
  exact ⟨added₁ ++ added₂, by simp only [Array.append_assoc]⟩

theorem Reads.get_bind {k : Machine → Run β} (hk : ∀ m, (k m).Reads) : (get >>= k).Reads :=
  fun m => hk m m

theorem reads_onHeap (g : Heap → Except Fault α) : Reads (onHeap g) := by
  refine .unchanged fun m a m' ran => ?_
  unfold onHeap at ran
  cases found : g m.heap <;> rw [found] at ran <;> cases ran
  rfl

theorem reads_lookup (name : Name) : Reads (lookup name) := by
  refine .unchanged fun m a m' ran => ?_
  unfold lookup at ran
  cases found : m.scopes.get? m.scope name.text <;> rw [found] at ran <;> cases ran
  rfl

theorem reads_addArray (items : Array Value) : Reads (allocate (·.addArray items)) := by
  intro m a m' ran
  cases ran
  exact ⟨#[items], by simp⟩

theorem Reads.locating {r : Run α} (hr : r.Reads) (span : Span) : (locating span r).Reads := by
  intro m a m' ran
  unfold Run.locating at ran
  cases result : r m with
  | ok b m₁ =>
    rw [result] at ran
    cases ran
    exact hr m a m' result
  | error why m₁ =>
    rw [result] at ran
    cases why <;> cases ran

end Run

section Reading

open Run

variable {host : Host} {n : Nat}

theorem reads_eval_succ (eval : ∀ e : Expr, e.onlyReads → (Expr.eval host n e).Reads)
    (evalAll : ∀ es, Expr.allOnlyRead es → (Expr.evalAll host n es).Reads) (e : Expr)
    (only : e.onlyReads) : (Expr.eval host (n + 1) e).Reads := by
  unfold Expr.eval
  refine Reads.locating ?_ e.span
  cases e with
  | literal span value => exact reads_pure _
  | ident name => exact reads_lookup name
  | group span inner => exact eval inner only
  | array span elements =>
    exact (evalAll elements only).bind fun _ => (reads_addArray _).bind fun _ => reads_pure _
  | unary span op operand => exact (eval operand only).bind fun _ => reads_onHeap _
  | binary span op left right =>
    obtain ⟨l, r⟩ := Bool.and_eq_true_iff.1 only
    exact (eval left l).bind fun _ => (eval right r).bind fun _ => reads_onHeap _
  | logical span op left right =>
    obtain ⟨l, r⟩ := Bool.and_eq_true_iff.1 only
    refine (eval left l).bind fun a => .get_bind fun m => ?_
    split
    · exact reads_pure _
    · exact (eval right r).bind fun _ => .get_bind fun _ => reads_pure _
  | ternary span condition yes no =>
    obtain ⟨first, n⟩ := Bool.and_eq_true_iff.1 only
    obtain ⟨c, y⟩ := Bool.and_eq_true_iff.1 first
    refine (eval condition c).bind fun v => .get_bind fun m => ?_
    split
    · exact eval yes y
    · exact eval no n
  | index span target position =>
    obtain ⟨t, p⟩ := Bool.and_eq_true_iff.1 only
    exact (eval target t).bind fun _ => (eval position p).bind fun _ => reads_onHeap _
  | field span target name =>
    exact (eval target only).bind fun _ => (reads_onHeap _).locating name.span
  | stepThenTake | takeThenStep | assign | call => cases only

theorem reads_evalAll_succ (eval : ∀ e : Expr, e.onlyReads → (Expr.eval host n e).Reads)
    (evalAll : ∀ es, Expr.allOnlyRead es → (Expr.evalAll host n es).Reads) (es : List Expr)
    (only : Expr.allOnlyRead es) : (Expr.evalAll host (n + 1) es).Reads := by
  cases es with
  | nil => exact reads_pure []
  | cons e rest =>
    obtain ⟨first, others⟩ := Bool.and_eq_true_iff.1 only
    unfold Expr.evalAll
    exact (eval e first).bind fun _ => (evalAll rest others).bind fun _ => reads_pure _

/-- An expression that only reads does nothing but add arrays. -/
theorem reads_eval (host : Host) (n : Nat) :
    (∀ e : Expr, e.onlyReads → (Expr.eval host n e).Reads) ∧
      ∀ es, Expr.allOnlyRead es → (Expr.evalAll host n es).Reads := by
  induction n with
  | zero => exact ⟨fun _ _ => reads_stop _, fun _ _ => reads_stop _⟩
  | succ n ih => exact ⟨reads_eval_succ ih.1 ih.2, reads_evalAll_succ ih.1 ih.2⟩

end Reading

/-! ## What a binding leaves alone -/

/-- The scopes, arrays, functions and classes of `m` are in `m'` as they were, and so are the
objects. What may differ are the fields of `object` and the scopes in `except`. -/
structure Machine.Spares (object : ObjectId) (except : ScopeId → Prop) (m m' : Machine) : Prop where
  nodes : ∀ id node, ¬ except id → m.scopes.node? id = some node → m'.scopes.node? id = some node
  arrays : ∀ (i : Nat) items, m.heap.arrays[i]? = some items → m'.heap.arrays[i]? = some items
  functions : ∀ (i : Nat) r, m.heap.functions[i]? = some r → m'.heap.functions[i]? = some r
  objects : ∀ (i : Nat) record, i ≠ object.index → m.heap.objects[i]? = some record →
    m'.heap.objects[i]? = some record
  classes : m'.heap.classes = m.heap.classes

theorem getElem?_append_of_some {α : Type} {xs : Array α} {i : Nat} {a : α} (ys : Array α)
    (h : xs[i]? = some a) : (xs ++ ys)[i]? = some a := by
  obtain ⟨there, rfl⟩ := Array.getElem?_eq_some_iff.1 h
  rw [Array.getElem?_append_left there, Array.getElem?_eq_getElem there]

theorem getElem?_push_of_some {α : Type} {xs : Array α} {i : Nat} {a : α} (b : α)
    (h : xs[i]? = some a) : (xs.push b)[i]? = some a := by
  rw [Array.push_eq_append]
  exact getElem?_append_of_some #[b] h

namespace Machine.Spares

variable {object : ObjectId} {except except' : ScopeId → Prop} {m m₁ m' : Machine}

/-- Whoever changes the scopes only, changes them in `except`. -/
theorem scopes (m : Machine) {scopes : Scopes Value}
    (kept : ∀ id node, ¬ except id → m.scopes.node? id = some node →
      scopes.node? id = some node) : m.Spares object except { m with scopes } where
  nodes := kept
  arrays _ _ there := there
  functions _ _ there := there
  objects _ _ _ there := there
  classes := rfl

theorem refl (m : Machine) : m.Spares object except m := scopes m fun _ _ _ => id

/-- It does not matter where the program stands. -/
theorem goto (m : Machine) (scope : ScopeId) : m.Spares object except { m with scope } where
  nodes _ _ _ := id
  arrays _ _ := id
  functions _ _ := id
  objects _ _ _ := id
  classes := rfl

theorem trans (h : m.Spares object except m₁) (h' : m₁.Spares object except m') :
    m.Spares object except m' where
  nodes id node kept there := h'.nodes id node kept (h.nodes id node kept there)
  arrays i items there := h'.arrays i items (h.arrays i items there)
  functions i r there := h'.functions i r (h.functions i r there)
  objects i record other there := h'.objects i record other (h.objects i record other there)
  classes := h'.classes.trans h.classes

/-- Exceptions may be forgotten at scopes that do not exist yet, and added anywhere. -/
theorem weaken (h : m.Spares object except m')
    (fresh : ∀ id, except id → except' id ∨ m.scopes.node? id = none) :
    m.Spares object except' m' where
  nodes id node kept there := by
    refine h.nodes id node (fun excepted => ?_) there
    rcases fresh id excepted with excepted | missing
    · exact kept excepted
    · cases missing.symm.trans there
  arrays := h.arrays
  functions := h.functions
  objects := h.objects
  classes := h.classes

theorem addArrays (m : Machine) (added : Array (Array Value)) :
    m.Spares object except
      { m with heap := { m.heap with arrays := m.heap.arrays ++ added } } where
  nodes _ _ _ := id
  arrays _ _ there := getElem?_append_of_some added there
  functions _ _ := id
  objects _ _ _ := id
  classes := rfl

theorem addFunction (m : Machine) (r : Routine) :
    m.Spares object except { m with heap := (m.heap.addFunction r).2 } where
  nodes _ _ _ := id
  arrays _ _ := id
  functions _ _ there := getElem?_push_of_some r there
  objects _ _ _ := id
  classes := rfl

theorem addObject (m : Machine) (record : ObjectRecord) :
    m.Spares object except { m with heap := (m.heap.addObject record).2 } where
  nodes _ _ _ := id
  arrays _ _ := id
  functions _ _ := id
  objects _ _ _ there := getElem?_push_of_some record there
  classes := rfl

theorem setField (m : Machine) (name : String) (value : Value) :
    m.Spares object except { m with heap := m.heap.write (.field object name) value } where
  nodes _ _ _ := id
  arrays _ _ := id
  functions _ _ := id
  objects i record other there := by
    show (m.heap.objects.modify object.index _)[i]? = some record
    rw [Array.getElem?_modify, if_neg other.symm, there]
  classes := rfl

theorem define (m : Machine) (id : ScopeId) (name : String) (value : Value) (writable : Bool) :
    m.Spares object (· = id) { m with scopes := m.scopes.define id name value writable } :=
  scopes m fun other node kept there => by
    rw [Scopes.node?_define, if_neg (kept ·.symm), there]

end Machine.Spares

end Scriptlet
