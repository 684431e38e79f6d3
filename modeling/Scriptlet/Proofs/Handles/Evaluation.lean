import Scriptlet.Proofs.Handles

/-!
# Evaluation leaves no handle dangling

Every part of the evaluator is sound, whatever value, fault or lack of fuel it ends with. Soundness
of a step is stated from a machine on: values that are handed to the step are in the heap of that
machine, and so in every later one. A host answers with values that it was given or found in the
heap (`Host.Faithful`); that is all that is asked of it.
-/

namespace Scriptlet

/-- From `base` on, a step keeps machines sound and takes nothing away, and if it ends with a value,
then with one for which `Q` holds. -/
structure Run.Sound {α : Type} (base : Machine) (r : Run α) (Q : Machine → α → Prop) : Prop where
  after : ∀ m, base.Grows m → m.Sound → (r.after m).Sound ∧ m.Grows (r.after m)
  gives : ∀ m, base.Grows m → m.Sound → ∀ a m', r m = .ok a m' → Q m' a

/-! ## What steps give -/

namespace Machine

/-- A value that is in the heap. -/
def Holds (m : Machine) (v : Value) : Prop := m.heap.Holds v

def HoldsAll (m : Machine) (vs : List Value) : Prop := ∀ v ∈ vs, m.heap.Holds v

/-- A flow whose value, if it has one, is in the heap. -/
def HoldsFlow (m : Machine) : Flow → Prop
  | .next => True
  | .returned v => m.heap.Holds v

/-- A table of methods in the heap. -/
def HoldsTable (m : Machine) (methods : Dict Value) : Prop :=
  ∀ e ∈ methods.entries, m.heap.Holds e.2

/-- A bound class whose methods and constructor are in the heap. -/
structure HoldsBound (m : Machine) (bound : BoundClass) : Prop where
  methods : m.HoldsTable bound.methods
  constructor : ∀ id, bound.constructor = some id → m.heap.Holds (.function id)

/-- Nothing in particular. -/
def Anything {α : Type} (_ : Machine) (_ : α) : Prop := True

theorem Grows.holdsAll {m m' : Machine} (h : m.Grows m') {vs : List Value}
    (held : m.HoldsAll vs) : m'.HoldsAll vs :=
  fun v mem => h.holds (held v mem)

theorem Grows.holdsTable {m m' : Machine} (h : m.Grows m') {methods : Dict Value}
    (held : m.HoldsTable methods) : m'.HoldsTable methods :=
  fun e mem => h.holds (held e mem)

end Machine

open Machine

namespace Run

variable {α β : Type} {base : Machine} {r : Run α} {Q : Machine → α → Prop}
  {R : Machine → β → Prop}

/-! ## Sequences -/

theorem Sound.bind {k : α → Run β} (hr : r.Sound base Q)
    (hk : ∀ m a, base.Grows m → Q m a → (k a).Sound m R) : (r >>= k).Sound base R where
  after m grown sound := by
    obtain ⟨sound₁, grown₁⟩ := hr.after m grown sound
    cases hrm : r m with
    | ok a m₁ =>
      rw [after_eq_of_ok hrm] at sound₁ grown₁
      rw [after_bind_of_ok hrm]
      have next := hk m₁ a (grown.trans grown₁) (hr.gives m grown sound a m₁ hrm)
      obtain ⟨sound₂, grown₂⟩ := next.after m₁ (.refl m₁) sound₁
      exact ⟨sound₂, grown₁.trans grown₂⟩
    | error why m₁ =>
      rw [after_eq_of_error hrm] at sound₁ grown₁
      rw [after_bind_of_error hrm]
      exact ⟨sound₁, grown₁⟩
  gives m grown sound b m' ran := by
    obtain ⟨a, m₁, first, second⟩ := bind_eq_ok ran
    obtain ⟨sound₁, grown₁⟩ := hr.after m grown sound
    rw [after_eq_of_ok first] at sound₁ grown₁
    have next := hk m₁ a (grown.trans grown₁) (hr.gives m grown sound a m₁ first)
    exact next.gives m₁ (.refl m₁) sound₁ b m' second

/-- A step that goes on with what it finds in the machine. -/
theorem Sound.get_bind {k : Machine → Run β}
    (hk : ∀ m, base.Grows m → m.Sound → (k m).Sound m R) : (get >>= k).Sound base R where
  after m grown sound := (hk m grown sound).after m (.refl m) sound
  gives m grown sound := (hk m grown sound).gives m (.refl m) sound

/-! ## Primitives -/

/-- A step that leaves the machine as it is. -/
theorem sound_of_same (same : ∀ m, r.after m = m)
    (gives : ∀ m, base.Grows m → m.Sound → ∀ a m', r m = .ok a m' → Q m a) : r.Sound base Q where
  after m _ sound := by
    rw [same m]
    exact ⟨sound, .refl m⟩
  gives m grown sound a m' ran := by
    have here := same m
    rw [after_eq_of_ok ran] at here
    exact here ▸ gives m grown sound a m' ran

/-- A step that ends with a value. -/
theorem sound_of_ok (h : ∀ m, base.Grows m → m.Sound →
    ∃ a m', r m = .ok a m' ∧ m'.Sound ∧ m.Grows m' ∧ Q m' a) : r.Sound base Q where
  after m grown sound := by
    obtain ⟨a, m', ran, sound', grown', -⟩ := h m grown sound
    rw [after_eq_of_ok ran]
    exact ⟨sound', grown'⟩
  gives m grown sound b m₁ ran := by
    obtain ⟨a, m', ran', -, -, given⟩ := h m grown sound
    rw [ran'] at ran
    cases ran
    exact given

theorem sound_pure {a : α} (given : ∀ m, base.Grows m → Q m a) :
    (pure a : Run α).Sound base Q :=
  sound_of_same (fun _ => rfl) fun m grown _ b m' ran => by
    cases ran
    exact given m grown

theorem sound_stop (why : Stop) : (stop why : Run α).Sound base Q :=
  sound_of_same (fun _ => rfl) fun _ _ _ _ _ ran => by cases ran

theorem sound_fault (f : Fault) : (fault f : Run α).Sound base Q := sound_stop _

theorem sound_onHeap {f : Heap → Except Fault α}
    (given : ∀ m, base.Grows m → m.Sound → ∀ a, f m.heap = .ok a → Q m a) :
    (onHeap f).Sound base Q := by
  refine sound_of_same (fun m => ?_) fun m grown sound a m' ran => ?_
  · unfold Run.after onHeap
    cases f m.heap <;> rfl
  · unfold onHeap at ran
    cases found : f m.heap with
    | ok b =>
      rw [found] at ran
      cases ran
      exact given m grown sound a found
    | error e =>
      rw [found] at ran
      cases ran

theorem sound_write (place : Place) {value : Value} (held : base.heap.Holds value) :
    (write place value).Sound base Anything := by
  refine sound_of_ok fun m grown sound => ⟨_, _, rfl, ?_, ?_, trivial⟩
  · exact sound.write place (grown.holds held)
  · constructor <;> cases place <;> simp [Heap.write]

theorem sound_addArray {items : Array Value} (held : ∀ v ∈ items, base.heap.Holds v) :
    (allocate (·.addArray items)).Sound base fun m id => m.Holds (.array id) := by
  refine sound_of_ok fun m grown sound => ⟨_, _, rfl, ?_, ?_, ?_⟩
  · exact sound.addArray fun v mem => grown.holds (held v mem)
  · exact { Grows.refl m with arrays := by simp }
  · simp [Machine.Holds, Heap.Holds]

theorem sound_addObject {object : ObjectRecord}
    (held : ∀ e ∈ object.fields.entries, base.heap.Holds e.2) :
    (allocate (·.addObject object)).Sound base fun m id => m.Holds (.object id) := by
  refine sound_of_ok fun m grown sound => ⟨_, _, rfl, ?_, ?_, ?_⟩
  · exact sound.addObject fun e mem => grown.holds (held e mem)
  · exact { Grows.refl m with objects := by simp }
  · simp [Machine.Holds, Heap.Holds]

theorem sound_addFunction {routine : Routine}
    (home : ∀ decl home, routine = .user decl home → base.scopes.Has home) :
    (allocate (·.addFunction routine)).Sound base fun m id => m.Holds (.function id) := by
  refine sound_of_ok fun m grown sound => ⟨_, _, rfl, ?_, ?_, ?_⟩
  · exact sound.addFunction fun decl scope same => grown.has (home decl scope same)
  · exact { Grows.refl m with functions := by simp }
  · simp [Machine.Holds, Heap.Holds]

theorem sound_addDeclared (decl : FunctionDecl Stmt) {scope : ScopeId}
    (there : base.scopes.Has scope) :
    (allocate (·.addFunction (.user decl scope))).Sound base fun m id => m.Holds (.function id) :=
  sound_addFunction fun _ _ same => by
    cases same
    exact there

theorem sound_addClass {record : ClassRecord} (home : base.scopes.Has record.home)
    (parent : ∀ p, record.superclass = some p → base.heap.Holds (.cls p)) :
    (allocate (·.addClass record)).Sound base fun m id => m.Holds (.cls id) := by
  refine sound_of_ok fun m grown sound => ⟨_, _, rfl, ?_, ?_, ?_⟩
  · exact sound.addClass (grown.has home) fun p same => grown.holds (parent p same)
  · exact { Grows.refl m with classes := by simp }
  · simp [Machine.Holds, Heap.Holds]

theorem sound_newScope {parent : ScopeId} (there : base.scopes.Has parent) :
    (newScope parent).Sound base fun m id => m.scopes.Has id := by
  refine sound_of_ok fun m grown sound => ⟨_, _, rfl, sound.child (grown.has there), ?_, ?_⟩
  · exact { Grows.refl m with scopes := by simp }
  · simp [Scopes.Has]

theorem sound_define (id : ScopeId) (name : String) {value : Value} (writable : Bool)
    (held : base.heap.Holds value) : (define id name value writable).Sound base Anything := by
  refine sound_of_ok fun m grown sound => ⟨_, _, rfl, ?_, ?_, trivial⟩
  · exact sound.define id name writable (grown.holds held)
  · exact { Grows.refl m with scopes := by simp }

theorem sound_console {r : Run α} (h : ∀ m, ∃ console, r.after m = { m with console })
    (gives : ∀ m a m', r m = .ok a m' → Q m' a) : r.Sound base Q where
  after m _ sound := by
    obtain ⟨console, same⟩ := h m
    rw [same]
    exact ⟨sound.move rfl rfl sound.current, { Grows.refl m with }⟩
  gives m _ _ := gives m

theorem sound_print (text : String) : (print text).Sound base Anything :=
  sound_console (fun _ => ⟨_, rfl⟩) fun _ _ _ _ => trivial

theorem sound_lookup (name : Name) : (lookup name).Sound base Holds := by
  refine sound_of_same (fun m => ?_) fun m _ sound v m' ran => ?_
  · unfold Run.after lookup
    cases m.scopes.get? m.scope name.text <;> rfl
  · unfold lookup at ran
    cases found : m.scopes.get? m.scope name.text with
    | none =>
      rw [found] at ran
      cases ran
    | some value =>
      rw [found] at ran
      cases ran
      exact sound.holds_of_get? found

theorem sound_assign (name : Name) {value : Value} (held : base.heap.Holds value) :
    (Run.assign name value).Sound base Anything where
  after m grown sound := by
    unfold Run.after Run.assign
    cases m.scopes.target m.scope name.text with
    | ok owner =>
      exact ⟨sound.define owner name.text true (grown.holds held),
        { Grows.refl m with scopes := by simp }⟩
    | error e => exact ⟨sound, .refl m⟩
  gives _ _ _ _ _ _ := trivial

theorem sound_checkArity (expected got : Nat) : (checkArity expected got).Sound base Anything := by
  unfold checkArity
  split
  · exact sound_pure fun _ _ => trivial
  · exact sound_fault _

theorem Sound.locating (h : r.Sound base Q) (span : Span) : (locating span r).Sound base Q where
  after m grown sound := by
    rw [after_locating]
    exact h.after m grown sound
  gives m grown sound a m' ran := by
    refine h.gives m grown sound a m' ?_
    unfold Run.locating at ran
    cases hr : r m with
    | ok b m₁ =>
      rw [hr] at ran
      exact ran
    | error why m₁ =>
      rw [hr] at ran
      cases why <;> cases ran

/-- A step in another scope, which must exist; what it gives does not depend on the scope. -/
theorem Sound.within (h : r.Sound base Q) {scope : ScopeId} (there : base.scopes.Has scope)
    (stable : ∀ m scope a, Q m a → Q { m with scope } a) : (within scope r).Sound base Q where
  after m grown sound := by
    rw [after_within]
    have inside : Machine.Sound { m with scope } := sound.move rfl rfl (grown.has there)
    have grown' : base.Grows { m with scope } := { grown with }
    obtain ⟨sound₁, grown₁⟩ := h.after _ grown' inside
    exact ⟨sound₁.move rfl rfl (grown₁.has sound.current), { grown₁ with }⟩
  gives m grown sound a m' ran := by
    have inside : Machine.Sound { m with scope } := sound.move rfl rfl (grown.has there)
    have grown' : base.Grows { m with scope } := { grown with }
    unfold Run.within at ran
    cases hr : r { m with scope } with
    | ok b m₁ =>
      rw [hr] at ran
      cases ran
      exact stable _ _ _ (h.gives _ grown' inside _ _ hr)
    | error why m₁ =>
      rw [hr] at ran
      cases ran

theorem Sound.deeper (h : r.Sound base Q)
    (stable : ∀ m depth a, Q m a → Q { m with depth } a) : (deeper r).Sound base Q where
  after m grown sound := by
    rw [after_deeper]
    have inside : Machine.Sound { m with depth := m.depth + 1 } := sound.move rfl rfl sound.current
    have grown' : base.Grows { m with depth := m.depth + 1 } := { grown with }
    obtain ⟨sound₁, grown₁⟩ := h.after _ grown' inside
    exact ⟨sound₁.move rfl rfl sound₁.current, { grown₁ with }⟩
  gives m grown sound a m' ran := by
    have inside : Machine.Sound { m with depth := m.depth + 1 } := sound.move rfl rfl sound.current
    have grown' : base.Grows { m with depth := m.depth + 1 } := { grown with }
    unfold Run.deeper at ran
    cases hr : r { m with depth := m.depth + 1 } with
    | ok b m₁ =>
      rw [hr] at ran
      cases ran
      exact stable _ _ _ (h.gives _ grown' inside _ _ hr)
    | error why m₁ =>
      rw [hr] at ran
      cases ran

end Run

/-! ## Operations on values -/

/-- A result that, unless it is a fault, satisfies `P`. -/
def Returns {α : Type} (P : α → Prop) (r : Except Fault α) : Prop := ∀ a, r = .ok a → P a

namespace Returns

variable {α β : Type} {P : α → Prop}

theorem ok {a : α} (h : P a) : Returns P (.ok a) := by
  intro b same
  cases same
  exact h

theorem error (f : Fault) : Returns P (.error f) := nofun

theorem bind {r : Except Fault β} {k : β → Except Fault α} (h : ∀ b, Returns P (k b)) :
    Returns P (r >>= k) := by
  cases r with
  | ok b => exact h b
  | error f => exact .error f

end Returns

namespace Heap

variable {h : Heap}

/-- Operators compute numbers, truth values and texts, which refer to nothing. -/
theorem returns_unary (op : UnaryOp) (v : Value) : Returns h.Holds (h.unary op v) := by
  cases op with
  | not => exact .ok trivial
  | neg => exact .bind fun _ => .ok trivial

theorem returns_add (a b : Value) : Returns h.Holds (add a b) := by
  unfold add
  split
  · exact .ok (P := h.Holds) trivial
  · exact .ok (P := h.Holds) trivial
  · exact .error _

theorem returns_binary (op : BinaryOp) (a b : Value) : Returns h.Holds (h.binary op a b) := by
  cases op with
  | add => exact returns_add a b
  | div =>
    refine .bind fun divisor => ?_
    split
    · exact .error _
    · exact .bind fun _ => .ok trivial
  | eq | ne => exact .ok trivial
  | _ => exact .bind fun _ => .bind fun _ => .ok trivial

/-- Reading past the end of an array gives null. -/
theorem returns_indexGet (arrays : ∀ id, ∀ v ∈ h.array id, h.Holds v) (target index : Value) :
    Returns h.Holds (h.indexGet target index) := by
  cases target with
  | text s =>
    refine .bind fun i => ?_
    cases i with
    | ofNat n =>
      dsimp only
      split
      · exact .ok trivial
      · exact .error _
    | negSucc => exact .error _
  | array id =>
    refine .bind fun i => ?_
    cases i with
    | ofNat n =>
      refine .ok ?_
      cases found : (h.array id)[n]? with
      | none => trivial
      | some v => exact arrays id v (Array.mem_of_getElem? found)
    | negSucc => exact .error _
  | _ => exact .error _

theorem returns_fieldGet (fields : ∀ id, ∀ e ∈ (h.object id).fields.entries, h.Holds e.2)
    (target : Value) (name : String) : Returns h.Holds (h.fieldGet target name) := by
  cases target with
  | text s =>
    simp only [fieldGet]
    split
    · exact .ok (P := h.Holds) trivial
    · exact .error _
  | object id =>
    simp only [fieldGet]
    cases found : (h.object id).fields.get? name with
    | none => exact .error _
    | some v => exact .ok (fields id _ (Dict.mem_of_get? found))
  | _ => exact .error _

theorem returns_character (args : List Value) : Returns h.Holds (Native.character h args) := by
  unfold Native.character
  cases args
  all_goals
    refine .bind fun x => ?_
    dsimp only
    split
    · exact .ok (P := h.Holds) trivial
    · exact .error _

end Heap

/-- What a host answers is in the heap that it was asked on. -/
def Heap.HoldsReply (h : Heap) : Reply → Prop
  | .value v => h.Holds v
  | .array items => ∀ v ∈ items, h.Holds v

/-- A host that makes up no handles: it answers with what it was given or found in the heap. -/
def Host.Faithful (host : Host) : Prop :=
  ∀ key args h, (∀ v ∈ args, h.Holds v) → Returns h.HoldsReply (host key args h)

namespace Run

variable {base : Machine} {host : Host}

theorem sound_shortCircuit {op : LogicalOp} {left v : Value} {h : Heap}
    (held : base.heap.Holds left) (found : shortCircuit? h op left = some v) :
    base.heap.Holds v := by
  cases op with
  | and | or =>
    simp only [shortCircuit?] at found
    split at found <;> simp only [Option.some.injEq, reduceCtorEq] at found
    exact found ▸ trivial
  | coalesce =>
    simp only [shortCircuit?] at found
    split at found <;> simp only [Option.some.injEq, reduceCtorEq] at found
    exact found ▸ held

theorem sound_afterRight {op : LogicalOp} {right : Value} {h : Heap}
    (held : base.heap.Holds right) : base.heap.Holds (afterRight h op right) := by
  cases op with
  | and | or => trivial
  | coalesce => exact held

/-! ## Natives and declarations -/

theorem sound_nativePrint (args : List Value) : (Native.print args).Sound base Anything := by
  refine sound_console (fun m => ?_) fun _ _ _ _ => trivial
  cases args with
  | nil => exact ⟨m.console, rfl⟩
  | cons v rest => exact ⟨_, rfl⟩

theorem sound_readLine : Native.readLine.Sound base Holds := by
  refine sound_console (fun m => ?_) fun m v m' ran => ?_
  · unfold Run.after Native.readLine
    obtain ⟨answer, console⟩ := m.console.readLine
    cases answer <;> exact ⟨console, rfl⟩
  · unfold Native.readLine at ran
    split at ran <;> cases ran <;> trivial

theorem sound_epoch : Native.epoch.Sound base Holds := by
  have read : readClock.Sound base Anything := by
    constructor
    · intro m _ sound
      unfold Run.after readClock
      obtain ⟨reading, clock⟩ := m.clock.read
      cases reading <;> exact ⟨sound.move rfl rfl sound.current, { Grows.refl m with }⟩
    · exact fun _ _ _ _ _ _ => trivial
  refine read.bind fun m seconds _ _ => sound_onHeap fun _ _ _ v shown => ?_
  unfold Native.time at shown
  split at shown <;> cases shown
  trivial

theorem sound_native (faithful : host.Faithful) (action : NativeAction) {args : List Value}
    (held : base.HoldsAll args) : (Native.call host action args).Sound base Holds := by
  unfold Native.call
  cases action with
  | print => exact (sound_nativePrint args).bind fun _ _ _ _ => sound_pure fun _ _ => trivial
  | readLine => exact (sound_nativePrint args).bind fun _ _ _ _ => sound_readLine
  | clock => exact sound_epoch
  | character => exact sound_onHeap fun m _ _ => Heap.returns_character args
  | nothing => exact sound_pure fun _ _ => trivial
  | host key =>
    have answered : (onHeap (host key args)).Sound base fun m reply => m.heap.HoldsReply reply :=
      sound_onHeap fun m grown _ => faithful key args m.heap (grown.holdsAll held)
    refine answered.bind fun m reply _ given => ?_
    cases reply with
    | value v => exact sound_pure fun m' later => later.holds given
    | array items =>
      refine (sound_addArray fun v mem => given v (Array.mem_toList_iff.2 mem)).bind
        fun m' id _ new => ?_
      exact sound_pure fun _ later => later.holds new

theorem sound_declareFunction (decl : FunctionDecl Stmt) :
    (declareFunction decl).Sound base Anything := by
  refine .get_bind fun m grown sound => ?_
  exact (sound_addDeclared decl sound.current).bind fun _ id _ new => sound_define _ _ true new

theorem sound_superclass (name : Name) :
    (superclass name).Sound base fun m id => m.Holds (.cls id) := by
  refine sound_of_same (fun m => ?_) fun m _ sound id m' ran => ?_
  · unfold Run.after superclass
    split
    · next same =>
      split at same <;> cases same
      rfl
    · next same => split at same <;> cases same <;> rfl
  · unfold superclass at ran
    split at ran
    · next found =>
      cases ran
      exact sound.holds_of_get? found
    · cases ran
    · cases ran

theorem sound_declareClass (decl : ClassDecl Stmt) : (declareClass decl).Sound base Anything := by
  have declared (m : Machine) (parent : Option ClassId)
      (held : ∀ p, parent = some p → m.heap.Holds (.cls p)) : Run.Sound m (do
      let here := (← get).scope
      let id ← allocate (·.addClass ⟨decl, here, parent⟩)
      define here decl.name.text (.cls id) true) Anything := by
    refine .get_bind fun m' grown sound => ?_
    have added := @sound_addClass m' ⟨decl, m'.scope, parent⟩ sound.current
      fun p same => grown.holds (held p same)
    exact added.bind fun _ id _ new => sound_define _ _ true new
  unfold declareClass
  cases decl.superclass with
  | none =>
    have missing : (pure none : Run (Option ClassId)).Sound base fun _ parent => parent = none :=
      sound_pure fun _ _ => rfl
    exact missing.bind fun m parent _ same => declared m parent fun p found => by simp_all
  | some name =>
    have found : (some <$> superclass name).Sound base
        fun m parent => ∀ p, parent = some p → m.heap.Holds (.cls p) := by
      rw [map_eq_pure_bind]
      refine (sound_superclass name).bind fun m id _ held => sound_pure fun m' later p same => ?_
      cases same
      exact later.holds held
    exact found.bind fun m parent _ held => declared m parent held

theorem sound_bindArguments (scope : ScopeId) (params : List Name) {args : List Value}
    (held : base.HoldsAll args) : (bindArguments scope params args).Sound base Anything := by
  induction params generalizing base args with
  | nil => exact sound_pure fun _ _ => trivial
  | cons param params ih =>
    cases args with
    | nil => exact sound_pure fun _ _ => trivial
    | cons arg args =>
      obtain ⟨first, others⟩ := List.forall_mem_cons.1 held
      exact (sound_define _ _ true first).bind fun _ _ grown _ => ih (grown.holdsAll others)

theorem sound_bindMethods (object : ObjectId) {scope : ScopeId} (there : base.scopes.Has scope)
    (decls : List (FunctionDecl Stmt)) {methods : Dict Value} (held : base.HoldsTable methods) :
    (bindMethods object scope decls methods).Sound base HoldsTable := by
  induction decls generalizing base methods with
  | nil => exact sound_pure fun _ later => later.holdsTable held
  | cons decl rest ih =>
    refine (sound_addDeclared decl there).bind fun m id grown new => ?_
    refine (sound_write _ new).bind fun m' _ later _ => ?_
    refine ih ((grown.trans later).has there) fun e mem => ?_
    rcases Dict.mem_insert mem with rfl | mem
    · exact later.holds new
    · exact (grown.trans later).holds (held e mem)

theorem sound_bindInherited (scope : ScopeId) (parentName : String) {bound : BoundClass}
    (held : base.HoldsBound bound) :
    (bindInherited scope parentName bound).Sound base Anything := by
  have added := @sound_addObject base ⟨parentName, bound.methods⟩ held.methods
  refine added.bind fun m object grown new => ?_
  refine (sound_define scope "base" false new).bind fun m' _ grown' _ => ?_
  cases same : bound.constructor with
  | some id =>
    have there : (pure id : Run FunctionId).Sound m' fun m id => m.Holds (.function id) :=
      sound_pure fun _ later => ((grown.trans grown').trans later).holds (held.constructor id same)
    exact there.bind fun _ _ _ held => sound_define scope "super" false held
  | none =>
    have native : ∀ decl home, Routine.native "super" 0 .nothing = .user decl home →
        m'.scopes.Has home := nofun
    exact (sound_addFunction native).bind fun _ _ _ held => sound_define scope "super" false held

end Run

/-! ## The evaluator -/

/-- Every part of the evaluator is sound with a given fuel, from any machine that has what the part
is given. -/
structure Keeps (host : Host) (n : Nat) : Prop where
  eval : ∀ base e, (Expr.eval host n e).Sound base Holds
  evalAll : ∀ base es, (Expr.evalAll host n es).Sound base HoldsAll
  store : ∀ base target value, base.heap.Holds value →
    (Expr.store host n target value).Sound base Anything
  step : ∀ base op target, (Expr.step host n op target).Sound base Anything
  callValue : ∀ base callee args, base.HoldsAll args →
    (callValue host n callee args).Sound base Holds
  callFunction : ∀ base id args, base.HoldsAll args →
    (callFunction host n id args).Sound base Holds
  instantiate : ∀ base id args, base.HoldsAll args →
    (instantiate host n id args).Sound base Holds
  bindClass : ∀ base id object, base.heap.Holds (.object object) →
    (bindClass host n id object).Sound base HoldsBound
  initFields : ∀ base object fields, (initFields host n object fields).Sound base Anything
  exec : ∀ base s, (Stmt.exec host n s).Sound base HoldsFlow
  execAll : ∀ base ss, (Stmt.execAll host n ss).Sound base HoldsFlow
  execLoop : ∀ base condition body, (Stmt.execLoop host n condition body).Sound base HoldsFlow

section Evaluator

open Run

variable {host : Host} {n : Nat}

theorem keeps_zero : Keeps host 0 := by
  constructor <;> intros <;> exact sound_stop _

theorem Keeps.eval_succ (ih : Keeps host n) (base : Machine) (e : Expr) :
    (Expr.eval host (n + 1) e).Sound base Holds := by
  unfold Expr.eval
  refine Sound.locating ?_ e.span
  cases e with
  | literal span value => exact sound_pure fun m _ => by cases value <;> trivial
  | ident name => exact sound_lookup name
  | group span inner => exact ih.eval base inner
  | array span elements =>
    refine (ih.evalAll base elements).bind fun m items _ held => ?_
    have listed : ∀ v ∈ items.toArray, m.heap.Holds v := fun v mem => held v (by simpa using mem)
    exact (sound_addArray listed).bind fun _ _ _ new => sound_pure fun _ later => later.holds new
  | unary span op operand =>
    refine (ih.eval base operand).bind fun _ v _ _ => ?_
    exact sound_onHeap fun _ _ _ => Heap.returns_unary op v
  | stepThenTake span op operand | takeThenStep span op operand =>
    exact (ih.step base op operand).bind fun _ _ _ _ => sound_pure fun _ _ => trivial
  | binary span op left right =>
    refine (ih.eval base left).bind fun m a _ _ => (ih.eval m right).bind fun _ b _ _ => ?_
    exact sound_onHeap fun _ _ _ => Heap.returns_binary op a b
  | logical span op left right =>
    refine (ih.eval base left).bind fun m a _ held => .get_bind fun m₁ grown _ => ?_
    split
    · next v found =>
      have kept := sound_shortCircuit (grown.holds held) found
      exact sound_pure fun _ later => later.holds kept
    · refine (ih.eval m₁ right).bind fun m₂ b _ held => .get_bind fun m₃ later _ => ?_
      exact sound_pure fun _ later' => later'.holds (sound_afterRight (later.holds held))
  | ternary span condition yes no =>
    refine (ih.eval base condition).bind fun m v _ _ => .get_bind fun m₁ _ _ => ?_
    split
    · exact ih.eval m₁ yes
    · exact ih.eval m₁ no
  | assign span target value =>
    refine (ih.eval base value).bind fun m v _ held => ?_
    exact (ih.store m target v held).bind fun _ _ later _ =>
      sound_pure fun _ later' => (later.trans later').holds held
  | index span target position =>
    refine (ih.eval base target).bind fun m t _ _ => (ih.eval m position).bind fun _ i _ _ => ?_
    exact sound_onHeap fun _ _ sound => Heap.returns_indexGet sound.arrays t i
  | field span target name =>
    refine (ih.eval base target).bind fun m t _ _ => Sound.locating ?_ name.span
    exact sound_onHeap fun _ _ sound => Heap.returns_fieldGet sound.fields t name.text
  | call span callee args =>
    refine (ih.eval base callee).bind fun m f _ _ => ?_
    refine (ih.evalAll m args).bind fun m₁ values _ held => ?_
    split
    · exact ih.callValue m₁ f values held
    · exact sound_fault _

theorem Keeps.evalAll_succ (ih : Keeps host n) (base : Machine) (es : List Expr) :
    (Expr.evalAll host (n + 1) es).Sound base HoldsAll := by
  cases es with
  | nil => exact sound_pure fun _ _ => List.forall_mem_nil _
  | cons e rest =>
    refine (ih.eval base e).bind fun m v _ first => ?_
    refine (ih.evalAll m rest).bind fun m₁ vs later others => sound_pure fun m₂ later' => ?_
    exact List.forall_mem_cons.2 ⟨(later.trans later').holds first, later'.holdsAll others⟩

theorem Keeps.store_succ (ih : Keeps host n) (base : Machine) (target : Expr) (value : Value)
    (held : base.heap.Holds value) :
    (Expr.store host (n + 1) target value).Sound base Anything := by
  unfold Expr.store
  cases target with
  | ident name => exact sound_assign name held
  | index span target position =>
    refine (ih.eval base target).bind fun m t grown _ => ?_
    refine (ih.eval m position).bind fun m₁ i grown₁ _ => ?_
    have place : (onHeap (·.itemPlace t i)).Sound m₁ Anything :=
      sound_onHeap fun _ _ _ _ _ => trivial
    refine place.bind fun m₂ at_ grown₂ _ => sound_write at_ ?_
    exact ((grown.trans grown₁).trans grown₂).holds held
  | field span target name =>
    refine (ih.eval base target).bind fun m t grown _ => ?_
    have place : (onHeap fun _ => Heap.fieldPlace t name.text).Sound m Anything :=
      sound_onHeap fun _ _ _ _ _ => trivial
    refine (place.locating name.span).bind fun m₁ at_ grown₁ _ => sound_write at_ ?_
    exact (grown.trans grown₁).holds held
  | _ => exact sound_fault _

theorem Keeps.step_succ (ih : Keeps host n) (base : Machine) (op : StepOp) (target : Expr) :
    (Expr.step host (n + 1) op target).Sound base Anything := by
  unfold Expr.step
  split
  · refine (ih.eval base target).bind fun m v _ _ => ?_
    have read : (onHeap (·.toNumber v)).Sound m Anything := sound_onHeap fun _ _ _ _ _ => trivial
    refine read.bind fun m₁ old _ _ => ?_
    exact (ih.store m₁ target (.number (old + op.delta)) trivial).bind fun _ _ _ _ =>
      sound_pure fun _ _ => trivial
  · exact sound_fault _

theorem Keeps.callValue_succ (ih : Keeps host n) (base : Machine) (callee : Value)
    (args : List Value) (held : base.HoldsAll args) :
    (Scriptlet.callValue host (n + 1) callee args).Sound base Holds := by
  unfold Scriptlet.callValue
  split
  · exact ih.callFunction base _ args held
  · exact ih.instantiate base _ args held
  · exact sound_fault _

/-- The scope of a body is made inside the scope that the heap has for the function. -/
theorem Keeps.callFunction_succ (ih : Keeps host n) (faithful : host.Faithful) (base : Machine)
    (id : FunctionId) (args : List Value) (held : base.HoldsAll args) :
    (Scriptlet.callFunction host (n + 1) id args).Sound base Holds := by
  unfold Scriptlet.callFunction
  refine .get_bind fun m grown sound => ?_
  cases found : m.heap.function id with
  | native name arity action =>
    refine (sound_checkArity arity args.length).bind fun _ _ later _ => ?_
    exact sound_native faithful action ((grown.trans later).holdsAll held)
  | user decl home =>
    have there := sound.functionHomes id decl home found
    refine (sound_checkArity decl.arity args.length).bind fun m₁ _ grown₁ _ => ?_
    refine (sound_newScope (grown₁.has there)).bind fun m₂ scope grown₂ inside => ?_
    have given := ((grown.trans grown₁).trans grown₂).holdsAll held
    refine (sound_bindArguments scope decl.params given).bind fun m₃ _ grown₃ _ => ?_
    have body := (ih.execAll m₃ decl.body).deeper fun _ _ _ held => held
    refine (body.within (grown₃.has inside) fun _ _ _ held => held).bind fun m₄ flow _ held => ?_
    cases flow with
    | returned v => exact sound_pure fun _ later => later.holds held
    | next => exact sound_pure fun _ _ => trivial

theorem Keeps.instantiate_succ (ih : Keeps host n) (base : Machine) (id : ClassId)
    (args : List Value) (held : base.HoldsAll args) :
    (Scriptlet.instantiate host (n + 1) id args).Sound base Holds := by
  unfold Scriptlet.instantiate
  refine .get_bind fun m grown _ => (sound_checkArity _ _).bind fun m₁ _ grown₁ _ => ?_
  have empty : ∀ e ∈ (Dict.empty : Dict Value).entries, m₁.heap.Holds e.2 :=
    List.forall_mem_nil _
  have added := @sound_addObject m₁ ⟨(m.heap.classRecord id).name, .empty⟩ empty
  refine added.bind fun m₂ object grown₂ new => ?_
  refine (ih.bindClass m₂ id object new).bind fun m₃ bound grown₃ _ => ?_
  cases bound.constructor with
  | none => exact sound_pure fun _ later => (grown₃.trans later).holds new
  | some constructor =>
    have given := (((grown.trans grown₁).trans grown₂).trans grown₃).holdsAll held
    refine (ih.callFunction m₃ constructor args given).bind fun m₄ _ grown₄ _ => ?_
    exact sound_pure fun _ later => ((grown₃.trans grown₄).trans later).holds new

theorem Keeps.members (ih : Keeps host n) (base : Machine) (object : ObjectId) {scope : ScopeId}
    (there : base.scopes.Has scope) (decl : ClassDecl Stmt) {inherited : Dict Value}
    (held : base.HoldsTable inherited) :
    (bindMembers host n object scope decl inherited).Sound base HoldsBound := by
  have initialized := (ih.initFields base object decl.fields).within there fun _ _ _ _ => trivial
  refine initialized.bind fun m _ grown _ => ?_
  have bound := sound_bindMethods object (grown.has there) decl.methods (grown.holdsTable held)
  refine bound.bind fun m₁ table grown₁ methods => ?_
  cases decl.constructor with
  | none =>
    have missing : (pure none : Run (Option FunctionId)).Sound m₁ fun _ id => id = none :=
      sound_pure fun _ _ => rfl
    refine missing.bind fun m₂ id grown₂ same => sound_pure fun m₃ later => ?_
    exact ⟨(grown₂.trans later).holdsTable methods, fun id found => by simp_all⟩
  | some method =>
    have made : (some <$> allocate (·.addFunction (.user method scope))).Sound m₁
        fun m id => ∀ f, id = some f → m.heap.Holds (.function f) := by
      rw [map_eq_pure_bind]
      refine (sound_addDeclared method ((grown.trans grown₁).has there)).bind fun m₂ id _ new => ?_
      refine sound_pure fun m₃ later f same => ?_
      cases same
      exact later.holds new
    refine made.bind fun m₂ id grown₂ new => sound_pure fun m₃ later => ?_
    exact ⟨(grown₂.trans later).holdsTable methods, fun f same => later.holds (new f same)⟩

theorem Keeps.bindClass_succ (ih : Keeps host n) (base : Machine) (id : ClassId)
    (object : ObjectId) (held : base.heap.Holds (.object object)) :
    (Scriptlet.bindClass host (n + 1) id object).Sound base HoldsBound := by
  unfold Scriptlet.bindClass
  refine .get_bind fun m grown sound => ?_
  refine (sound_newScope (sound.classHomes id)).bind fun m₁ scope grown₁ there => ?_
  have this := (grown.trans grown₁).holds held
  refine (sound_define scope "this" false this).bind fun m₂ _ grown₂ _ => ?_
  have members (m' : Machine) (later : m₂.Grows m') {inherited : Dict Value}
      (held : m'.HoldsTable inherited) :=
    ih.members m' object ((grown₂.trans later).has there) (m.heap.classRecord id).decl held
  cases (m.heap.classRecord id).superclass with
  | none =>
    have empty : (pure .empty : Run (Dict Value)).Sound m₂ HoldsTable :=
      sound_pure fun _ _ => List.forall_mem_nil _
    exact empty.bind fun m₃ _ later held => members m₃ later held
  | some parent =>
    have older := ih.bindClass m₂ parent object (grown₂.holds this)
    refine older.bind fun m₃ bound grown₃ held => .get_bind fun m₄ grown₄ _ => ?_
    have kept : m₄.HoldsBound bound :=
      ⟨grown₄.holdsTable held.methods, fun f same => grown₄.holds (held.constructor f same)⟩
    refine (sound_bindInherited scope _ kept).bind fun m₅ _ grown₅ _ => ?_
    have given : (pure bound.methods : Run (Dict Value)).Sound m₅ HoldsTable :=
      sound_pure fun _ later => (grown₅.trans later).holdsTable kept.methods
    exact given.bind fun m₆ _ grown₆ held =>
      members m₆ (((grown₃.trans grown₄).trans grown₅).trans grown₆) held

theorem Keeps.initFields_succ (ih : Keeps host n) (base : Machine) (object : ObjectId)
    (fields : List FieldDecl) :
    (Scriptlet.initFields host (n + 1) object fields).Sound base Anything := by
  cases fields with
  | nil => exact sound_pure fun _ _ => trivial
  | cons field rest =>
    unfold Scriptlet.initFields
    refine (ih.eval base field.value).bind fun m v _ held => ?_
    exact (sound_write _ held).bind fun m₁ _ _ _ => ih.initFields m₁ object rest

/-- An optional value of a statement. -/
theorem Keeps.value (ih : Keeps host n) (base : Machine) (value : Option Expr)
    {k : Value → Run Flow}
    (hk : ∀ m v, base.Grows m → m.heap.Holds v → (k v).Sound m HoldsFlow) :
    (do
      let v ← match value with
        | some e => Expr.eval host n e
        | none => pure .null
      k v).Sound base HoldsFlow := by
  cases value with
  | none =>
    have null : (pure .null : Run Value).Sound base Holds := sound_pure fun _ _ => trivial
    exact null.bind hk
  | some e => exact (ih.eval base e).bind hk

theorem Keeps.exec_succ (ih : Keeps host n) (base : Machine) (s : Stmt) :
    (Stmt.exec host (n + 1) s).Sound base HoldsFlow := by
  unfold Stmt.exec
  cases s with
  | declare name value constant =>
    refine ih.value base value fun m v _ held => .get_bind fun m₁ grown _ => ?_
    exact (sound_define _ _ _ (grown.holds held)).bind fun _ _ _ _ => sound_pure fun _ _ => trivial
  | function decl =>
    exact (sound_declareFunction decl).bind fun _ _ _ _ => sound_pure fun _ _ => trivial
  | classDecl decl =>
    exact (sound_declareClass decl).bind fun _ _ _ _ => sound_pure fun _ _ => trivial
  | ret span value =>
    refine .get_bind fun m _ _ => ?_
    split
    · exact sound_fault _
    · exact ih.value m value fun _ _ _ held => sound_pure fun _ later => later.holds held
  | expr e => exact (ih.eval base e).bind fun _ _ _ _ => sound_pure fun _ _ => trivial
  | block body =>
    refine .get_bind fun m _ sound => ?_
    refine (sound_newScope sound.current).bind fun m₁ scope _ there => ?_
    exact (ih.execAll m₁ body).within there fun _ _ _ held => held
  | branch condition yes no =>
    refine (ih.eval base condition).bind fun m v _ _ => .get_bind fun m₁ _ _ => ?_
    split
    · exact ih.exec m₁ yes
    · cases no with
      | none => exact sound_pure fun _ _ => trivial
      | some no => exact ih.exec m₁ no
  | loop condition body => exact ih.execLoop base condition body

theorem Keeps.execAll_succ (ih : Keeps host n) (base : Machine) (ss : List Stmt) :
    (Stmt.execAll host (n + 1) ss).Sound base HoldsFlow := by
  cases ss with
  | nil => exact sound_pure fun _ _ => trivial
  | cons s rest =>
    unfold Stmt.execAll
    refine (ih.exec base s).bind fun m flow _ held => ?_
    cases flow with
    | returned v => exact sound_pure fun _ later => later.holds held
    | next => exact ih.execAll m rest

theorem Keeps.execLoop_succ (ih : Keeps host n) (base : Machine) (condition : Expr) (body : Stmt) :
    (Stmt.execLoop host (n + 1) condition body).Sound base HoldsFlow := by
  unfold Stmt.execLoop
  refine (ih.eval base condition).bind fun m v _ _ => .get_bind fun m₁ _ _ => ?_
  split
  · refine (ih.exec m₁ body).bind fun m₂ flow _ held => ?_
    cases flow with
    | returned v => exact sound_pure fun _ later => later.holds held
    | next => exact ih.execLoop m₂ condition body
  · exact sound_pure fun _ _ => trivial

/-- **Evaluation leaves no handle dangling**, whatever it ends with. The induction is on the fuel;
what a part is given is in the heap because the parts before it gave it. -/
theorem keeps (faithful : host.Faithful) (n : Nat) : Keeps host n := by
  induction n with
  | zero => exact keeps_zero
  | succ n ih =>
    exact ⟨ih.eval_succ, ih.evalAll_succ, ih.store_succ, ih.step_succ, ih.callValue_succ,
      ih.callFunction_succ faithful, ih.instantiate_succ, ih.bindClass_succ, ih.initFields_succ,
      ih.exec_succ, ih.execAll_succ, ih.execLoop_succ⟩

theorem sound_interpret (faithful : host.Faithful) (fuel : Nat) (mode : Mode) (base : Machine)
    (p : List Stmt) : (interpret host fuel mode p).Sound base Anything := by
  have parts := keeps faithful fuel
  -- The machine that the rest starts from is a later one.
  refine interpret_induction (motive := fun _ run => ∀ base, run.Sound base Anything)
    ?nil ?executed ?shown p base
  case nil => exact fun _ => sound_pure fun _ _ => trivial
  case executed =>
    intro s rest ih base
    exact (parts.exec base s).bind fun m _ _ _ => ih m
  case shown =>
    intro e rest ih base
    refine (parts.eval base e).bind fun m v _ _ => ?_
    split
    · exact .get_bind fun m₁ _ _ => (sound_print _).bind fun m₂ _ _ _ => ih m₂
    · exact ih m

end Evaluator

end Scriptlet
