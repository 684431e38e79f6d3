import Scriptlet.Proofs.Footprint

/-!
# No handle dangles

Values, scopes, functions and classes refer to one another by handles, and reading through a handle
that nothing was allocated for gives something empty. A machine is sound (`Machine.Sound`) if it has
no such handle: every handle that is stored in an array, an object, a binding, a function or a class
refers to something of its kind, the parent of a scope is older than the scope, and a superclass is
older than the classes below it. Values may refer to one another in circles; parents and
superclasses cannot.

A step is sound (`Run.Sound`) if it keeps machines sound, takes nothing away, and gives handles that
the machine afterwards has. What a step is given must be there when it starts, so soundness is
stated from a machine on: whatever that machine has is still there later, as machines only grow.
-/

namespace Scriptlet

/-! ## Handles -/

/-- What a value refers to is in the heap. -/
def Heap.Holds (h : Heap) : Value → Prop
  | .array id => id.index < h.arrays.size
  | .object id => id.index < h.objects.size
  | .function id => id.index < h.functions.size
  | .cls id => id.index < h.classes.size
  | .null | .bool _ | .number _ | .text _ => True

/-- The store has a scope for the handle. -/
def Scopes.Has {α : Type} (s : Scopes α) (id : ScopeId) : Prop := id.index < s.nodes.size

/-- No stored handle dangles, and parents and superclasses are older than what refers to them. -/
structure Machine.Sound (m : Machine) : Prop where
  arrays : ∀ id, ∀ v ∈ m.heap.array id, m.heap.Holds v
  fields : ∀ id, ∀ e ∈ (m.heap.object id).fields.entries, m.heap.Holds e.2
  functionHomes : ∀ id decl home, m.heap.function id = .user decl home → m.scopes.Has home
  classHomes : ∀ id, m.scopes.Has (m.heap.classRecord id).home
  superclasses : ∀ id parent, (m.heap.classRecord id).superclass = some parent →
    m.heap.Holds (.cls parent) ∧ parent.index < id.index
  bindings : ∀ id node, m.scopes.node? id = some node →
    ∀ e ∈ node.bindings.entries, m.heap.Holds e.2.value
  parents : ∀ id parent, m.scopes.parent? id = some parent →
    m.scopes.Has parent ∧ parent.index < id.index
  current : m.scopes.Has m.scope
  globals : m.scopes.Has Machine.globals

/-- Everything that was allocated in `m` is there in `m'`. -/
structure Machine.Grows (m m' : Machine) : Prop where
  arrays : m.heap.arrays.size ≤ m'.heap.arrays.size
  objects : m.heap.objects.size ≤ m'.heap.objects.size
  functions : m.heap.functions.size ≤ m'.heap.functions.size
  classes : m.heap.classes.size ≤ m'.heap.classes.size
  scopes : m.scopes.nodes.size ≤ m'.scopes.nodes.size

namespace Machine.Grows

variable {m m₁ m' : Machine}

theorem refl (m : Machine) : m.Grows m :=
  ⟨Nat.le_refl _, Nat.le_refl _, Nat.le_refl _, Nat.le_refl _, Nat.le_refl _⟩

theorem trans (h : m.Grows m₁) (h' : m₁.Grows m') : m.Grows m' where
  arrays := Nat.le_trans h.arrays h'.arrays
  objects := Nat.le_trans h.objects h'.objects
  functions := Nat.le_trans h.functions h'.functions
  classes := Nat.le_trans h.classes h'.classes
  scopes := Nat.le_trans h.scopes h'.scopes

theorem holds (h : m.Grows m') {v : Value} (held : m.heap.Holds v) : m'.heap.Holds v := by
  cases v with
  | array id => exact Nat.lt_of_lt_of_le held h.arrays
  | object id => exact Nat.lt_of_lt_of_le held h.objects
  | function id => exact Nat.lt_of_lt_of_le held h.functions
  | cls id => exact Nat.lt_of_lt_of_le held h.classes
  | null | bool | number | text => trivial

theorem has (h : m.Grows m') {id : ScopeId} (there : m.scopes.Has id) : m'.scopes.Has id :=
  Nat.lt_of_lt_of_le there h.scopes

end Machine.Grows

/-! ## Tables and arrays after a write -/

theorem Dict.mem_of_get? {α : Type} {d : Dict α} {name : String} {value : α}
    (h : d.get? name = some value) : (name, value) ∈ d.entries := by
  obtain ⟨entries⟩ := d
  change Dict.find name entries = some value at h
  induction entries with
  | nil => cases h
  | cons e rest ih =>
    obtain ⟨key, old⟩ := e
    unfold Dict.find at h
    split at h
    · next same =>
      cases h
      exact same ▸ List.mem_cons_self
    · exact List.mem_cons_of_mem _ (ih h)

theorem Dict.mem_insert {α : Type} {d : Dict α} {name : String} {value : α} {e : String × α}
    (h : e ∈ (d.insert name value).entries) : e = (name, value) ∨ e ∈ d.entries := by
  obtain ⟨entries⟩ := d
  change e ∈ Dict.put name value entries at h
  induction entries with
  | nil => exact .inl (List.mem_singleton.1 h)
  | cons first rest ih =>
    obtain ⟨key, old⟩ := first
    unfold Dict.put at h
    split at h
    · next same =>
      rcases List.mem_cons.1 h with rfl | h
      · exact .inl (by rw [same])
      · exact .inr (List.mem_cons_of_mem _ h)
    · rcases List.mem_cons.1 h with rfl | h
      · exact .inr List.mem_cons_self
      · exact (ih h).imp_right (List.mem_cons_of_mem _)

namespace Heap

theorem mem_writeAt {items : Array Value} {at_ : Nat} {value x : Value}
    (h : x ∈ writeAt items at_ value) : x = value ∨ x = .null ∨ x ∈ items := by
  unfold writeAt at h
  split at h
  · rcases Array.mem_or_eq_of_mem_setIfInBounds h with h | h
    · exact .inr (.inr h)
    · exact .inl h
  · rcases Array.mem_push.1 h with h | h
    · rcases Array.mem_append.1 h with h | h
      · exact .inr (.inr h)
      · exact .inr (.inl (Array.mem_replicate.1 h).2)
    · exact .inl h

/-- The elements of an array after a write were there before, unless they are the value that was
written or fill a gap before it. -/
theorem mem_array_write {h : Heap} {place : Place} {value x : Value} {id : ArrayId}
    (mem : x ∈ (h.write place value).array id) : x = value ∨ x = .null ∨ x ∈ h.array id := by
  cases place with
  | field object name => exact .inr (.inr mem)
  | item array at_ =>
    unfold write Heap.array at mem
    rw [Array.getElem?_modify] at mem
    unfold Heap.array
    cases found : h.arrays[id.index]? with
    | none => simp [found] at mem
    | some items =>
      rw [found] at mem
      split at mem
      · exact mem_writeAt mem
      · exact .inr (.inr mem)

/-- The same for the fields of an object. -/
theorem mem_object_write {h : Heap} {place : Place} {value : Value} {id : ObjectId}
    {e : String × Value} (mem : e ∈ ((h.write place value).object id).fields.entries) :
    e.2 = value ∨ e ∈ (h.object id).fields.entries := by
  cases place with
  | item array at_ => exact .inr mem
  | field object name =>
    unfold write Heap.object at mem
    rw [Array.getElem?_modify] at mem
    unfold Heap.object
    cases found : h.objects[id.index]? with
    | none =>
      rw [found] at mem
      split at mem <;> exact .inr mem
    | some record =>
      rw [found] at mem
      split at mem
      · rcases Dict.mem_insert mem with rfl | mem
        · exact .inl rfl
        · exact .inr mem
      · exact .inr mem

theorem array_addArray (h : Heap) (items : Array Value) (id : ArrayId) :
    (h.addArray items).2.array id = if id.index = h.arrays.size then items else h.array id := by
  unfold addArray Heap.array
  rw [Array.getElem?_push]
  split <;> rfl

theorem object_addObject (h : Heap) (object : ObjectRecord) (id : ObjectId) :
    (h.addObject object).2.object id =
      if id.index = h.objects.size then object else h.object id := by
  unfold addObject Heap.object
  rw [Array.getElem?_push]
  split <;> rfl

end Heap

/-! ## Sound machines -/

namespace Machine

variable {m m' : Machine}

/-- Machines with the same heap and scopes are sound together, wherever the program stands. -/
theorem Sound.move (h : m.Sound) (heap : m'.heap = m.heap) (scopes : m'.scopes = m.scopes)
    (current : m.scopes.Has m'.scope) : m'.Sound := by
  obtain ⟨heap', scopes', console, scope, depth, clock⟩ := m'
  cases heap
  cases scopes
  exact { h with current }

/-- What a scope means by a name is in the heap. -/
theorem Sound.holds_of_get? (h : m.Sound) {id : ScopeId} {name : String} {v : Value}
    (found : m.scopes.get? id name = some v) : m.heap.Holds v := by
  obtain ⟨binding, bound, rfl⟩ := Option.map_eq_some_iff.1 found
  obtain ⟨owner, -, bound⟩ := Option.bind_eq_some_iff.1 bound
  obtain ⟨node, there, bound⟩ := Option.bind_eq_some_iff.1 bound
  exact h.bindings owner node there _ (Dict.mem_of_get? bound)

/-- A write adds nothing to the heap and removes nothing. -/
theorem Sound.write (h : m.Sound) (place : Place) {value : Value} (held : m.heap.Holds value) :
    Machine.Sound { m with heap := m.heap.write place value } := by
  have same (v : Value) (held : m.heap.Holds v) : (m.heap.write place value).Holds v := by
    cases place <;> cases v <;> simp_all [Heap.write, Heap.Holds]
  have functions : (m.heap.write place value).functions = m.heap.functions := by
    cases place <;> rfl
  have classes : (m.heap.write place value).classes = m.heap.classes := by
    cases place <;> rfl
  exact { h with
    arrays id v mem := by
      rcases Heap.mem_array_write mem with rfl | rfl | mem
      · exact same v held
      · trivial
      · exact same v (h.arrays id v mem)
    fields id e mem := by
      rcases Heap.mem_object_write mem with found | mem
      · exact same e.2 (found ▸ held)
      · exact same e.2 (h.fields id e mem)
    functionHomes id decl home found := by
      rw [Heap.function, functions] at found
      exact h.functionHomes id decl home found
    classHomes id := by
      rw [Heap.classRecord, classes]
      exact h.classHomes id
    superclasses id parent found := by
      rw [Heap.classRecord, classes] at found
      obtain ⟨held, older⟩ := h.superclasses id parent found
      exact ⟨same (.cls parent) held, older⟩
    bindings id node there e mem := same e.2.value (h.bindings id node there e mem) }

theorem Sound.addArray (h : m.Sound) {items : Array Value} (held : ∀ v ∈ items, m.heap.Holds v) :
    Machine.Sound { m with heap := (m.heap.addArray items).2 } := by
  have same (v : Value) (held : m.heap.Holds v) : (m.heap.addArray items).2.Holds v := by
    cases v with
    | array id => exact Nat.lt_of_lt_of_le held (by simp [Heap.addArray])
    | _ => exact held
  exact { h with
    arrays id v mem := by
      change v ∈ (m.heap.addArray items).2.array id at mem
      rw [Heap.array_addArray] at mem
      split at mem
      · exact same v (held v mem)
      · exact same v (h.arrays id v mem)
    fields id e mem := same e.2 (h.fields id e mem)
    bindings id node there e mem := same e.2.value (h.bindings id node there e mem) }

theorem Sound.addObject (h : m.Sound) {object : ObjectRecord}
    (held : ∀ e ∈ object.fields.entries, m.heap.Holds e.2) :
    Machine.Sound { m with heap := (m.heap.addObject object).2 } := by
  have same (v : Value) (held : m.heap.Holds v) : (m.heap.addObject object).2.Holds v := by
    cases v with
    | object id => exact Nat.lt_of_lt_of_le held (by simp [Heap.addObject])
    | _ => exact held
  exact { h with
    arrays id v mem := same v (h.arrays id v mem)
    fields id e mem := by
      change e ∈ ((m.heap.addObject object).2.object id).fields.entries at mem
      rw [Heap.object_addObject] at mem
      split at mem
      · exact same e.2 (held e mem)
      · exact same e.2 (h.fields id e mem)
    bindings id node there e mem := same e.2.value (h.bindings id node there e mem) }

theorem Sound.addFunction (h : m.Sound) {r : Routine}
    (home : ∀ decl home, r = .user decl home → m.scopes.Has home) :
    Machine.Sound { m with heap := (m.heap.addFunction r).2 } := by
  have same (v : Value) (held : m.heap.Holds v) : (m.heap.addFunction r).2.Holds v := by
    cases v with
    | function id => exact Nat.lt_of_lt_of_le held (by simp [Heap.addFunction])
    | _ => exact held
  exact { h with
    arrays id v mem := same v (h.arrays id v mem)
    fields id e mem := same e.2 (h.fields id e mem)
    functionHomes id decl scope found := by
      change (m.heap.addFunction r).2.function id = .user decl scope at found
      rw [Heap.function_addFunction] at found
      split at found
      · exact home decl scope found
      · exact h.functionHomes id decl scope found
    bindings id node there e mem := same e.2.value (h.bindings id node there e mem) }

/-- A new class is younger than all others, its superclass among them. -/
theorem Sound.addClass (h : m.Sound) {record : ClassRecord} (home : m.scopes.Has record.home)
    (parent : ∀ p, record.superclass = some p → m.heap.Holds (.cls p)) :
    Machine.Sound { m with heap := (m.heap.addClass record).2 } := by
  have same (v : Value) (held : m.heap.Holds v) : (m.heap.addClass record).2.Holds v := by
    cases v with
    | cls id => exact Nat.lt_of_lt_of_le held (by simp [Heap.addClass])
    | _ => exact held
  exact { h with
    arrays id v mem := same v (h.arrays id v mem)
    fields id e mem := same e.2 (h.fields id e mem)
    classHomes id := by
      show m.scopes.Has ((m.heap.addClass record).2.classRecord id).home
      rw [Heap.classRecord_addClass]
      split
      · exact home
      · exact h.classHomes id
    superclasses id p found := by
      change ((m.heap.addClass record).2.classRecord id).superclass = some p at found
      rw [Heap.classRecord_addClass] at found
      split at found
      · next new =>
        have older := parent p found
        exact ⟨same (.cls p) older, new ▸ older⟩
      · obtain ⟨held, older⟩ := h.superclasses id p found
        exact ⟨same (.cls p) held, older⟩
    bindings id node there e mem := same e.2.value (h.bindings id node there e mem) }

/-- A new scope is younger than all others, its parent among them. -/
theorem Sound.child (h : m.Sound) {parent : ScopeId} (there : m.scopes.Has parent) :
    Machine.Sound { m with scopes := (m.scopes.child parent).2 } := by
  have same (id : ScopeId) (there : m.scopes.Has id) : (m.scopes.child parent).2.Has id :=
    Nat.lt_of_lt_of_le there (by simp)
  exact { h with
    functionHomes id decl home found := same home (h.functionHomes id decl home found)
    classHomes id := same _ (h.classHomes id)
    bindings id node found e mem := by
      change (m.scopes.child parent).2.node? id = some node at found
      rw [Scopes.node?_child] at found
      split at found
      · cases found
        cases mem
      · exact h.bindings id node found e mem
    parents id p found := by
      change ((m.scopes.child parent).2.node? id).bind (·.parent) = some p at found
      rw [Scopes.node?_child] at found
      split at found
      · next new =>
        cases found
        exact ⟨same parent there, new ▸ there⟩
      · obtain ⟨there, older⟩ := h.parents id p found
        exact ⟨same p there, older⟩
    current := same _ h.current
    globals := same _ h.globals }

theorem Sound.define (h : m.Sound) (id : ScopeId) (name : String) {value : Value} (writable : Bool)
    (held : m.heap.Holds value) :
    Machine.Sound { m with scopes := m.scopes.define id name value writable } := by
  have same (other : ScopeId) (there : m.scopes.Has other) :
      (m.scopes.define id name value writable).Has other := by
    simpa [Scopes.Has] using there
  exact { h with
    functionHomes id decl home found := same home (h.functionHomes id decl home found)
    classHomes id := same _ (h.classHomes id)
    bindings other node found e mem := by
      change (m.scopes.define id name value writable).node? other = some node at found
      rw [Scopes.node?_define] at found
      split at found
      · obtain ⟨old, there, rfl⟩ := Option.map_eq_some_iff.1 found
        rcases Dict.mem_insert mem with rfl | mem
        · exact held
        · exact h.bindings other old there e mem
      · exact h.bindings other node found e mem
    parents other p found := by
      change (m.scopes.define id name value writable).parent? other = some p at found
      rw [Scopes.parent?_define] at found
      obtain ⟨there, older⟩ := h.parents other p found
      exact ⟨same p there, older⟩
    current := same _ h.current
    globals := same _ h.globals }

end Machine

end Scriptlet
