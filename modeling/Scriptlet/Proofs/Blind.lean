import Scriptlet.Heap.Observe
import Scriptlet.Proofs.Footprint
import Scriptlet.Proofs.Shape

/-!
# Running does not look at places

Closures and classes keep the trees they were declared with, so the spans of a program live on in
the heap. Yet a run only copies them into faults. A run of the shape of a program, on a machine
whose heap holds shapes, does what the run of the program does: the same values, the same output,
the same faults at no place (`Expr.eval` and all other parts, `blind`; programs,
`agree_interpret`).

The clock of a machine on which no function reads it counts as one of its places too.
-/

namespace Scriptlet

/-! ## Heaps and machines without places -/

/-- A fault that arose somewhere, without the place. -/
def Fault.bare (f : Fault) : Fault := { f with span := f.span.map fun _ => .nowhere }

/-- A reason to stop without its place. -/
def Stop.bare : Stop → Stop
  | fault f => fault f.bare
  | why => why

namespace Routine

/-- A function without the places of its declaration. -/
def bare : Routine → Routine
  | user decl home => user (bareFunction decl) home
  | native name arity action => native name arity action

/-- Whether a function reads the clock. -/
def readsClock : Routine → Bool
  | native _ _ .clock => true
  | _ => false

@[simp] theorem name_bare (r : Routine) : r.bare.name = r.name := by
  cases r <;> simp [bare, name]

@[simp] theorem isNative_bare (r : Routine) : r.bare.isNative = r.isNative := by
  cases r <;> rfl

@[simp] theorem arity_bare (r : Routine) : r.bare.arity = r.arity := by
  cases r <;> simp [bare, arity, FunctionDecl.arity, bareFunction_eq]

@[simp] theorem params?_bare (r : Routine) : r.bare.params? = r.params? := by
  cases r <;> simp [bare, params?, bareFunction_eq, Function.comp_def]

end Routine

@[simp] theorem arity_bareFunction (decl : FunctionDecl Stmt) :
    (bareFunction decl).arity = decl.arity := by
  simp [FunctionDecl.arity, bareFunction_eq]

@[simp] theorem arity_bareClass (decl : ClassDecl Stmt) : (bareClass decl).arity = decl.arity := by
  rw [ClassDecl.arity, ClassDecl.arity, bareClass_eq]
  cases decl.constructor <;> simp

namespace ClassRecord

/-- A class without the places of its declaration. -/
def bare (c : ClassRecord) : ClassRecord := { c with decl := bareClass c.decl }

@[simp] theorem bare_decl (c : ClassRecord) : c.bare.decl = bareClass c.decl := rfl

@[simp] theorem bare_superclass (c : ClassRecord) : c.bare.superclass = c.superclass := rfl

@[simp] theorem name_bare (c : ClassRecord) : c.bare.name = c.name := by
  simp [name, bareClass_eq]

@[simp] theorem params?_bare (c : ClassRecord) : c.bare.params? = c.params? := by
  simp [params?, bareClass_eq, bareFunction_eq, Function.comp_def]

end ClassRecord

namespace Heap

/-- A heap without places. -/
def bare (h : Heap) : Heap :=
  { h with functions := h.functions.map Routine.bare, classes := h.classes.map ClassRecord.bare }

/-- Whether some function reads the clock. -/
def readsClock (h : Heap) : Bool := h.functions.any Routine.readsClock

@[simp] theorem bare_array (h : Heap) (id : ArrayId) : h.bare.array id = h.array id := rfl

@[simp] theorem bare_object (h : Heap) (id : ObjectId) : h.bare.object id = h.object id := rfl

@[simp] theorem bare_function (h : Heap) (id : FunctionId) :
    h.bare.function id = (h.function id).bare := by
  simp only [function, bare, Array.getElem?_map]
  cases h.functions[id.index]? <;> rfl

@[simp] theorem bare_classRecord (h : Heap) (id : ClassId) :
    h.bare.classRecord id = (h.classRecord id).bare := by
  simp only [classRecord, bare, Array.getElem?_map]
  cases h.classes[id.index]? <;> rfl

@[simp] theorem bare_write (h : Heap) (place : Place) (value : Value) :
    h.bare.write place value = (h.write place value).bare := by
  cases place <;> rfl

theorem readsClock_of_function {h : Heap} {id : FunctionId}
    (clock : (h.function id).readsClock = true) : h.readsClock = true := by
  unfold function at clock
  cases found : h.functions[id.index]? with
  | none =>
    rw [found] at clock
    cases clock
  | some r =>
    rw [found] at clock
    exact Array.any_eq_true'.2 ⟨r, Array.mem_of_getElem? found, clock⟩

/-! ### What operations see -/

@[simp] theorem bare_toBool (h : Heap) (v : Value) : h.bare.toBool v = h.toBool v := by
  cases v <;> rfl

@[simp] theorem bare_toNumber (h : Heap) (v : Value) : h.bare.toNumber v = h.toNumber v := by
  cases v <;> rfl

@[simp] theorem bare_unary (h : Heap) (op : UnaryOp) (v : Value) :
    h.bare.unary op v = h.unary op v := by
  cases op <;> simp [unary]

@[simp] theorem bare_binary (h : Heap) (op : BinaryOp) (a b : Value) :
    h.bare.binary op a b = h.binary op a b := by
  cases op <;> simp [binary, bitwise, compare]

@[simp] theorem bare_indexGet (h : Heap) (target index : Value) :
    h.bare.indexGet target index = h.indexGet target index := by
  cases target <;> rfl

@[simp] theorem bare_itemPlace (h : Heap) (target index : Value) :
    h.bare.itemPlace target index = h.itemPlace target index := by
  cases target <;> rfl

@[simp] theorem bare_fieldGet (h : Heap) (target : Value) (name : String) :
    h.bare.fieldGet target name = h.fieldGet target name := by
  cases target <;> rfl

@[simp] theorem bare_character (h : Heap) (args : List Value) :
    Native.character h.bare args = Native.character h args := by
  cases args <;> simp [Native.character]

@[simp] theorem bare_word (h : Heap) (v : Value) : h.bare.word v = h.word v := by
  cases v <;> simp [word]

theorem bare_writeText (h : Heap) (fuel : Nat) : h.bare.writeText fuel = h.writeText fuel := by
  induction fuel with
  | zero =>
    funext v d
    cases v <;> simp [writeText]
  | succ fuel ih =>
    funext v d
    cases v <;> simp [writeText, ih]

@[simp] theorem bare_text (h : Heap) (v : Value) : h.bare.text v = h.text v := by
  rw [text, text, bare_writeText]
  rfl

@[simp] theorem bare_observeWithin (h : Heap) (fuel : Nat) (path : List Holder) (v : Value) :
    h.bare.observeWithin fuel path v = h.observeWithin fuel path v := by
  induction fuel generalizing path v with
  | zero => cases v <;> simp [observeWithin]
  | succ fuel ih =>
    have deeper (path) : h.bare.observeWithin fuel path = h.observeWithin fuel path :=
      funext (ih path)
    cases v <;> simp [observeWithin, deeper]

end Heap

namespace Machine

/-- A machine without places. -/
def bare (m : Machine) : Machine :=
  { m with heap := m.heap.bare, clock := if m.heap.readsClock then m.clock else .still 0 }

theorem bare_withHeap (m : Machine) {heap : Heap} (same : heap.readsClock = m.heap.readsClock) :
    bare { m with heap } = { m.bare with heap := heap.bare } := by
  simp [bare, same]

end Machine

/-! ## Steps -/

/-- Machines and faults without places. -/
def Run.places : View Stop Machine := ⟨Machine.bare, Stop.bare⟩

/-- A computation whose faults have no place yet. -/
def Unplaced {α : Type} (r : Except Fault α) : Prop := ∀ e, r = .error e → e.span = none

namespace Unplaced

variable {α β : Type}

theorem ok (a : α) : Unplaced (.ok a : Except Fault α) := nofun

theorem error {f : Fault} (none : f.span = none) : Unplaced (.error f : Except Fault α) := by
  rintro e ⟨rfl⟩
  exact none

theorem bind {r : Except Fault α} {k : α → Except Fault β} (hr : Unplaced r)
    (hk : ∀ a, Unplaced (k a)) : Unplaced (r >>= k) := by
  cases r with
  | ok a => exact hk a
  | error f => exact error (hr f rfl)

theorem mapError {r : Except Fault α} (h : Unplaced r) : r.mapError Fault.bare = r := by
  cases r with
  | ok a => rfl
  | error f =>
    obtain ⟨cause, span, notes⟩ := f
    cases (h _ rfl : span = none)
    rfl

end Unplaced

namespace Heap

theorem unplaced_toNumber (h : Heap) (v : Value) : Unplaced (h.toNumber v) := by
  cases v with
  | text s =>
    simp only [toNumber]
    split
    · exact .ok _
    · exact .error rfl
  | null | bool | number | array => exact .ok _
  | function | cls | object => exact .error rfl

theorem unplaced_unary (h : Heap) (op : UnaryOp) (v : Value) : Unplaced (h.unary op v) := by
  cases op with
  | not => exact .ok _
  | neg => exact (h.unplaced_toNumber v).bind fun _ => .ok _

theorem unplaced_add (a b : Value) : Unplaced (add a b) := by
  unfold add
  split
  · exact .ok _
  · exact .ok _
  · exact .error rfl

theorem unplaced_twoNumbers (h : Heap) (a b : Value) (f : Float → Float → Value) :
    Unplaced (do
      let x ← h.toNumber a
      let y ← h.toNumber b
      return f x y) :=
  (h.unplaced_toNumber a).bind fun _ => (h.unplaced_toNumber b).bind fun _ => .ok _

theorem unplaced_binary (h : Heap) (op : BinaryOp) (a b : Value) : Unplaced (h.binary op a b) := by
  cases op with
  | add => exact unplaced_add a b
  | div =>
    refine (h.unplaced_toNumber b).bind fun divisor => ?_
    split
    · exact .error rfl
    · exact (h.unplaced_toNumber a).bind fun _ => .ok _
  | eq | ne => exact .ok _
  | _ => exact h.unplaced_twoNumbers a b _

theorem unplaced_position (v : Value) : Unplaced (position v) := by
  cases v with
  | number => exact .ok _
  | _ => exact .error rfl

theorem unplaced_indexGet (h : Heap) (target index : Value) :
    Unplaced (h.indexGet target index) := by
  cases target with
  | text s =>
    refine (unplaced_position index).bind fun i => ?_
    cases i with
    | ofNat n =>
      dsimp only
      split
      · exact .ok _
      · exact .error rfl
    | negSucc => exact .error rfl
  | array id =>
    refine (unplaced_position index).bind fun i => ?_
    cases i with
    | ofNat => exact .ok _
    | negSucc => exact .error rfl
  | _ => exact .error rfl

theorem unplaced_itemPlace (h : Heap) (target index : Value) :
    Unplaced (h.itemPlace target index) := by
  cases target with
  | array id =>
    refine (unplaced_position index).bind fun i => ?_
    cases i with
    | ofNat n =>
      dsimp only
      split
      · exact .ok _
      · exact .error rfl
    | negSucc => exact .error rfl
  | _ => exact .error rfl

theorem unplaced_fieldGet (h : Heap) (target : Value) (name : String) :
    Unplaced (h.fieldGet target name) := by
  cases target with
  | text s =>
    simp only [fieldGet]
    split
    · exact .ok _
    · exact .error rfl
  | object id =>
    simp only [fieldGet]
    split
    · exact .ok _
    · exact .error rfl
  | _ => exact .error rfl

theorem unplaced_fieldPlace (target : Value) (name : String) :
    Unplaced (fieldPlace target name) := by
  cases target with
  | object => exact .ok _
  | _ => exact .error rfl

/-- The character with a given code. -/
theorem unplaced_code (x : Float) : Unplaced (do
    let code := Number.dropFraction x
    let inside := match Number.view code with
      | .finite .. => Native.character? (Number.whole code)
      | _ => none
    match inside with
    | some c => return .text c.toString
    | none => .error (FaultCause.custom (Number.text code ++ " is not a valid character code")) :
      Except Fault Value) := by
  dsimp only
  split
  · exact .ok _
  · exact .error rfl

theorem unplaced_character (h : Heap) (args : List Value) :
    Unplaced (Native.character h args) := by
  cases args with
  | nil => exact (Unplaced.ok _).bind unplaced_code
  | cons v rest => exact (h.unplaced_toNumber v).bind unplaced_code

end Heap

theorem unplaced_time (seconds : Int) : Unplaced (Native.time seconds) := by
  unfold Native.time
  split
  · exact .ok _
  · exact .error rfl

/-- A host that does not look at places. -/
def Host.Blind (host : Host) : Prop :=
  ∀ key args h, host key args h.bare = (host key args h).mapError Fault.bare

theorem Host.blind_none : Host.none.Blind := fun _ _ _ => rfl

/-- On machines without places `r'` does what `r` does. -/
def Run.Agree {α : Type} (r r' : Run α) : Prop := Run.places.Commutes id r r'

namespace Run

open View

variable {α β : Type} {r r' : Run α}

theorem Agree.bind {k k' : α → Run β} (hr : Agree r r') (hk : ∀ a, Agree (k a) (k' a)) :
    Agree (r >>= k) (r' >>= k') :=
  View.Commutes.bind hr hk

theorem Agree.map (hr : Agree r r') (f : α → β) : Agree (f <$> r) (f <$> r') :=
  View.Commutes.map hr fun _ => rfl

/-- A step that goes on as the machine says. -/
theorem agree_of_get {k k' : Machine → Run β}
    (hk : ∀ m, k' m.bare m.bare = places.outcome id (k m m)) : Agree (get >>= k) (get >>= k') := hk

theorem Agree.get_bind {k k' : Machine → Run β} (hk : ∀ m, Agree (k m) (k' m.bare)) :
    Agree (get >>= k) (get >>= k') := fun m => hk m m

theorem agree_pure (a : α) : Agree (pure a) (pure a) := commutes_pure rfl

theorem agree_stop {why why' : Stop} (same : why' = why.bare) :
    Agree (stop why : Run α) (stop why') := fun _ => same ▸ rfl

theorem agree_fault {f f' : Fault} (same : f' = f.bare) : Agree (fault f : Run α) (fault f') :=
  agree_stop (congrArg Stop.fault same)

theorem agree_onHeap {g g' : Heap → Except Fault α}
    (same : ∀ h, g' h.bare = (g h).mapError Fault.bare) : Agree (onHeap g) (onHeap g') := by
  intro m
  show onHeap g' m.bare = _
  unfold onHeap
  rw [show m.bare.heap = m.heap.bare from rfl, same]
  cases g m.heap <;> rfl

/-- Computations that see no places and whose faults have none. -/
theorem agree_onHeap_of_unplaced {g g' : Heap → Except Fault α} (same : ∀ h, g' h.bare = g h)
    (unplaced : ∀ h, Unplaced (g h)) : Agree (onHeap g) (onHeap g') :=
  agree_onHeap fun h => (same h).trans (unplaced h).mapError.symm

theorem agree_write (place : Place) (value : Value) :
    Agree (write place value) (write place value) := by
  intro m
  show EStateM.Result.ok () { m.bare with heap := m.bare.heap.write place value } = _
  rw [show m.bare.heap = m.heap.bare from rfl, Heap.bare_write, ← Machine.bare_withHeap]
  · rfl
  · cases place <;> rfl

theorem agree_allocate {g g' : Heap → α × Heap} (value : ∀ h, (g' h.bare).1 = (g h).1)
    (heap : ∀ h, (g' h.bare).2 = (g h).2.bare) (clock : ∀ h, (g h).2.readsClock = h.readsClock) :
    Agree (allocate g) (allocate g') := by
  intro m
  show EStateM.Result.ok (g' m.heap.bare).1 { m.bare with heap := (g' m.heap.bare).2 } = _
  rw [value, heap, ← Machine.bare_withHeap m (clock m.heap)]
  rfl

theorem agree_addArray (items : Array Value) :
    Agree (allocate (·.addArray items)) (allocate (·.addArray items)) :=
  agree_allocate (fun _ => rfl) (fun _ => rfl) fun _ => rfl

theorem agree_addObject (object : ObjectRecord) :
    Agree (allocate (·.addObject object)) (allocate (·.addObject object)) :=
  agree_allocate (fun _ => rfl) (fun _ => rfl) fun _ => rfl

theorem agree_addFunction (routine : Routine) (timeless : routine.readsClock = false) :
    Agree (allocate (·.addFunction routine)) (allocate (·.addFunction routine.bare)) :=
  agree_allocate (fun _ => by simp [Heap.addFunction, Heap.bare])
    (fun _ => by simp [Heap.addFunction, Heap.bare])
    (fun _ => by simp [Heap.addFunction, Heap.readsClock, timeless])

theorem agree_addClass (record : ClassRecord) :
    Agree (allocate (·.addClass record)) (allocate (·.addClass record.bare)) :=
  agree_allocate (fun _ => by simp [Heap.addClass, Heap.bare])
    (fun _ => by simp [Heap.addClass, Heap.bare]) fun _ => rfl

theorem agree_print (text : String) : Agree (print text) (print text) := fun _ => rfl

theorem agree_newScope (parent : ScopeId) : Agree (newScope parent) (newScope parent) :=
  fun _ => rfl

theorem agree_define (id : ScopeId) (name : String) (value : Value) (writable : Bool) :
    Agree (define id name value writable) (define id name value writable) := fun _ => rfl

theorem Agree.locating (h : Agree r r') (span : Span) :
    Agree (locating span r) (locating .nowhere r') := by
  intro m
  show Run.locating .nowhere r' (places.state m) = _
  unfold Run.locating
  rw [h m]
  cases r m with
  | ok a m => rfl
  | error e m =>
    cases e with
    | fault f =>
      obtain ⟨cause, span, notes⟩ := f
      cases span <;> rfl
    | outOfFuel | awaitingInput | awaitingTime => rfl

theorem Agree.within (h : Agree r r') (scope : ScopeId) :
    Agree (within scope r) (within scope r') := by
  intro m
  show Run.within scope r' m.bare = _
  unfold Run.within
  have inside := h { m with scope }
  rw [show places.state { m with scope } = { m.bare with scope } from rfl] at inside
  simp only [inside]
  cases r { m with scope } <;> rfl

theorem Agree.deeper (h : Agree r r') : Agree (deeper r) (deeper r') := by
  intro m
  show Run.deeper r' m.bare = _
  unfold Run.deeper
  have inside := h { m with depth := m.depth + 1 }
  rw [show places.state { m with depth := m.depth + 1 } =
    { m.bare with depth := m.bare.depth + 1 } from rfl] at inside
  simp only [inside]
  cases r { m with depth := m.depth + 1 } <;> rfl

theorem agree_lookup (name : Name) : Agree (lookup name) (lookup name.bare) := by
  intro m
  have same : m.bare.scopes.get? m.bare.scope name.bare.text =
      m.scopes.get? m.scope name.text := rfl
  show lookup name.bare m.bare = _
  unfold lookup
  rw [same]
  cases m.scopes.get? m.scope name.text <;> rfl

theorem agree_assign (name : Name) (value : Value) :
    Agree (assign name value) (assign name.bare value) := by
  intro m
  have same : m.bare.scopes.target m.bare.scope name.bare.text =
      m.scopes.target m.scope name.text := rfl
  show assign name.bare value m.bare = _
  unfold assign
  rw [same]
  cases m.scopes.target m.scope name.text with
  | ok owner => rfl
  | error e => cases e <;> rfl

theorem agree_checkArity (expected got : Nat) :
    Agree (checkArity expected got) (checkArity expected got) := by
  unfold checkArity
  split
  · exact agree_pure ()
  · exact agree_fault rfl

/-! ## Declarations -/

theorem agree_declareFunction (decl : FunctionDecl Stmt) :
    Agree (declareFunction decl) (declareFunction (bareFunction decl)) := by
  unfold declareFunction
  refine .get_bind fun m => ?_
  rw [bareFunction_name]
  exact (agree_addFunction (.user decl m.scope) rfl).bind fun id =>
    agree_define m.scope decl.name.text (.function id) true

theorem agree_superclass (name : Name) : Agree (superclass name) (superclass name.bare) := by
  intro m
  have same : m.bare.scopes.get? m.bare.scope name.bare.text =
      m.scopes.get? m.scope name.text := rfl
  show superclass name.bare m.bare = _
  unfold superclass
  rw [same]
  cases m.scopes.get? m.scope name.text with
  | none => rfl
  | some v => cases v <;> rfl

theorem agree_declareClass (decl : ClassDecl Stmt) :
    Agree (declareClass decl) (declareClass (bareClass decl)) := by
  have declared (parent : Option ClassId) : Agree
      (do
        let here := (← get).scope
        let id ← allocate (·.addClass ⟨decl, here, parent⟩)
        define here decl.name.text (.cls id) true)
      (do
        let here := (← get).scope
        let id ← allocate (·.addClass ⟨bareClass decl, here, parent⟩)
        define here (bareClass decl).name.text (.cls id) true) := by
    refine .get_bind fun m => ?_
    rw [show (bareClass decl).name.text = decl.name.text by rw [bareClass_eq]; rfl]
    exact (agree_addClass ⟨decl, m.scope, parent⟩).bind fun id => agree_define _ _ _ _
  unfold declareClass
  rw [show (bareClass decl).superclass = decl.superclass.map Name.bare by rw [bareClass_eq]]
  cases decl.superclass with
  | none => exact (agree_pure none).bind declared
  | some name => exact ((agree_superclass name).map some).bind declared

theorem agree_bindMethods (object : ObjectId) (scope : ScopeId) (decls : List (FunctionDecl Stmt))
    (methods : Dict Value) : Agree (bindMethods object scope decls methods)
      (bindMethods object scope (decls.map bareFunction) methods) := by
  induction decls generalizing methods with
  | nil => exact agree_pure methods
  | cons decl rest ih =>
    refine (agree_addFunction (.user decl scope) rfl).bind fun id => ?_
    rw [bareFunction_name]
    exact (agree_write _ _).bind fun _ => ih _

theorem agree_bindInherited (scope : ScopeId) (parentName : String) (bound : BoundClass) :
    Agree (bindInherited scope parentName bound) (bindInherited scope parentName bound) := by
  refine (agree_addObject _).bind fun base => (agree_define _ _ _ _).bind fun _ => ?_
  cases bound.constructor with
  | some constructor => exact (agree_pure constructor).bind fun _ => agree_define _ _ _ _
  | none =>
    exact (agree_addFunction (.native "super" 0 .nothing) rfl).bind fun _ =>
      agree_define _ _ _ _

theorem agree_bindArguments (scope : ScopeId) (params : List Name) (args : List Value) :
    Agree (bindArguments scope params args) (bindArguments scope (params.map Name.bare) args) := by
  induction params generalizing args with
  | nil => exact agree_pure ()
  | cons param params ih =>
    cases args with
    | nil => exact agree_pure ()
    | cons arg args => exact (agree_define _ _ _ _).bind fun _ => ih args

/-! ## Native functions -/

theorem agree_nativePrint (args : List Value) : Agree (Native.print args) (Native.print args) := by
  intro m
  cases args with
  | nil => rfl
  | cons v rest =>
    show EStateM.Result.ok () { m.bare with console := m.console.print (m.heap.bare.text v) } = _
    rw [Heap.bare_text]
    rfl

theorem agree_readLine : Agree Native.readLine Native.readLine := by
  intro m
  show Native.readLine m.bare = _
  unfold Native.readLine
  rw [show m.bare.console = m.console from rfl]
  obtain ⟨answer, console⟩ := m.console.readLine
  cases answer <;> rfl

/-- The clock is only shown where some function reads it. -/
theorem native_bare {host : Host} (blind : host.Blind) (action : NativeAction) (args : List Value)
    {m : Machine} (clock : action = .clock → m.heap.readsClock = true) :
    Native.call host action args m.bare = places.outcome id (Native.call host action args m) := by
  cases action with
  | print => exact (agree_nativePrint args).bind (fun _ => agree_pure _) m
  | readLine => exact (agree_nativePrint args).bind (fun _ => agree_readLine) m
  | clock =>
    have reads := clock rfl
    have reading : readClock (places.state m) = places.outcome id (readClock m) := by
      show readClock m.bare = _
      unfold readClock
      rw [show m.bare.clock = m.clock by simp [Machine.bare, reads]]
      obtain ⟨reading, clock⟩ := m.clock.read
      cases reading <;> simp [View.outcome, places, Machine.bare, Stop.bare, reads]
    refine View.bind_eq_outcome reading fun seconds m₁ _ => ?_
    have agrees : Agree (onHeap fun _ => Native.time seconds) (onHeap fun _ => Native.time seconds) :=
      agree_onHeap_of_unplaced (fun _ => rfl) fun _ => unplaced_time seconds
    exact agrees m₁
  | character =>
    have agrees : Agree (onHeap (Native.character · args)) (onHeap (Native.character · args)) :=
      agree_onHeap_of_unplaced (fun h => h.bare_character args) fun h => h.unplaced_character args
    exact agrees m
  | nothing => exact agree_pure _ m
  | host key =>
    refine (agree_onHeap (blind key args)).bind (fun reply => ?_) m
    cases reply with
    | value v => exact agree_pure v
    | array items => exact (agree_addArray _).bind fun _ => agree_pure _

/-! ## The evaluator -/

/-- No part of the evaluator looks at places with a given fuel. -/
structure Blind (host : Host) (n : Nat) : Prop where
  eval : ∀ e, Agree (Expr.eval host n e) (Expr.eval host n e.bare)
  evalAll : ∀ es, Agree (Expr.evalAll host n es) (Expr.evalAll host n (Expr.bareAll es))
  store : ∀ target value,
    Agree (Expr.store host n target value) (Expr.store host n target.bare value)
  step : ∀ op target, Agree (Expr.step host n op target) (Expr.step host n op target.bare)
  callValue : ∀ callee args, Agree (callValue host n callee args) (callValue host n callee args)
  callFunction : ∀ id args, Agree (callFunction host n id args) (callFunction host n id args)
  instantiate : ∀ id args, Agree (instantiate host n id args) (instantiate host n id args)
  bindClass : ∀ id object, Agree (bindClass host n id object) (bindClass host n id object)
  initFields : ∀ object fields,
    Agree (initFields host n object fields) (initFields host n object (fields.map FieldDecl.bare))
  exec : ∀ s, Agree (Stmt.exec host n s) (Stmt.exec host n s.bare)
  execAll : ∀ body, Agree (Stmt.execAll host n body) (Stmt.execAll host n (Stmt.bareAll body))
  execLoop : ∀ condition body,
    Agree (Stmt.execLoop host n condition body) (Stmt.execLoop host n condition.bare body.bare)

theorem blind_zero (host : Host) : Blind host 0 := by
  constructor <;> intros <;> exact agree_stop rfl

variable {host : Host} {n : Nat}

theorem Blind.eval_succ (ih : Blind host n) (e : Expr) :
    Agree (Expr.eval host (n + 1) e) (Expr.eval host (n + 1) e.bare) := by
  unfold Expr.eval
  rw [Expr.span_bare]
  refine Agree.locating ?_ e.span
  cases e with
  | literal span value => exact agree_pure _
  | ident name => exact agree_lookup name
  | group span inner => exact ih.eval inner
  | array span elements =>
    refine (ih.evalAll elements).bind fun items => ?_
    exact (agree_addArray _).bind fun _ => agree_pure _
  | unary span op operand =>
    exact (ih.eval operand).bind fun v => agree_onHeap_of_unplaced (fun h => h.bare_unary op v)
      fun h => h.unplaced_unary op v
  | stepThenTake span op operand => exact (ih.step op operand).bind fun _ => agree_pure _
  | takeThenStep span op operand => exact (ih.step op operand).bind fun _ => agree_pure _
  | binary span op left right =>
    refine (ih.eval left).bind fun a => (ih.eval right).bind fun b => ?_
    exact agree_onHeap_of_unplaced (fun h => h.bare_binary op a b) fun h => h.unplaced_binary op a b
  | logical span op left right =>
    refine (ih.eval left).bind fun a => .get_bind fun m => ?_
    have same : shortCircuit? m.bare.heap op a = shortCircuit? m.heap op a := by
      cases op <;> simp [shortCircuit?, Machine.bare]
    rw [same]
    cases shortCircuit? m.heap op a with
    | some v => exact agree_pure v
    | none =>
      refine (ih.eval right).bind fun b => .get_bind fun m => ?_
      have after : afterRight m.bare.heap op b = afterRight m.heap op b := by
        cases op <;> simp [afterRight, Machine.bare]
      rw [after]
      exact agree_pure _
  | ternary span condition yes no =>
    refine (ih.eval condition).bind fun v => .get_bind fun m => ?_
    rw [show m.bare.heap.toBool v = m.heap.toBool v from m.heap.bare_toBool v]
    split
    · exact ih.eval yes
    · exact ih.eval no
  | assign span target value =>
    refine (ih.eval value).bind fun v => ?_
    exact (ih.store target v).bind fun _ => agree_pure v
  | index span target position =>
    refine (ih.eval target).bind fun t => (ih.eval position).bind fun i => ?_
    exact agree_onHeap_of_unplaced (fun h => h.bare_indexGet t i) fun h => h.unplaced_indexGet t i
  | field span target name =>
    refine (ih.eval target).bind fun t => ?_
    exact (agree_onHeap_of_unplaced (fun h => h.bare_fieldGet t name.text)
      fun h => h.unplaced_fieldGet t name.text).locating name.span
  | call span callee args =>
    refine (ih.eval callee).bind fun f => (ih.evalAll args).bind fun values => ?_
    split
    · exact ih.callValue f values
    · exact agree_fault (by simp [Fault.bare])

theorem Blind.evalAll_succ (ih : Blind host n) (es : List Expr) :
    Agree (Expr.evalAll host (n + 1) es) (Expr.evalAll host (n + 1) (Expr.bareAll es)) := by
  cases es with
  | nil => exact agree_pure []
  | cons e rest =>
    exact (ih.eval e).bind fun _ => (ih.evalAll rest).bind fun _ => agree_pure _

theorem Blind.store_succ (ih : Blind host n) (target : Expr) (value : Value) :
    Agree (Expr.store host (n + 1) target value) (Expr.store host (n + 1) target.bare value) := by
  cases target with
  | ident name => exact agree_assign name value
  | index span target position =>
    refine (ih.eval target).bind fun t => (ih.eval position).bind fun i => ?_
    exact (agree_onHeap_of_unplaced (fun h => h.bare_itemPlace t i)
      fun h => h.unplaced_itemPlace t i).bind fun place => agree_write place value
  | field span target name =>
    refine (ih.eval target).bind fun t => ?_
    exact ((agree_onHeap_of_unplaced (fun _ => rfl)
      fun _ => Heap.unplaced_fieldPlace t name.text).locating name.span).bind fun place =>
        agree_write place value
  | _ => exact agree_fault rfl

theorem isAssignable_bare (e : Expr) : e.bare.isAssignable = e.isAssignable := by
  cases e <;> rfl

theorem Blind.step_succ (ih : Blind host n) (op : StepOp) (target : Expr) :
    Agree (Expr.step host (n + 1) op target) (Expr.step host (n + 1) op target.bare) := by
  unfold Expr.step
  rw [isAssignable_bare]
  split
  · refine (ih.eval target).bind fun v => ?_
    refine (agree_onHeap_of_unplaced (fun h => h.bare_toNumber v)
      fun h => h.unplaced_toNumber v).bind fun old => ?_
    exact (ih.store target _).bind fun _ => agree_pure _
  · exact agree_fault rfl

theorem Blind.callValue_succ (ih : Blind host n) (callee : Value) (args : List Value) :
    Agree (Scriptlet.callValue host (n + 1) callee args)
      (Scriptlet.callValue host (n + 1) callee args) := by
  unfold Scriptlet.callValue
  split
  · exact ih.callFunction _ args
  · exact ih.instantiate _ args
  · exact agree_fault rfl

theorem Blind.callFunction_succ (ih : Blind host n) (blind : host.Blind) (id : FunctionId)
    (args : List Value) : Agree (Scriptlet.callFunction host (n + 1) id args)
      (Scriptlet.callFunction host (n + 1) id args) := by
  unfold Scriptlet.callFunction
  refine agree_of_get fun m => ?_
  rw [show m.bare.heap.function id = (m.heap.function id).bare from m.heap.bare_function id]
  cases found : m.heap.function id with
  | native name arity action =>
    refine View.bind_eq_outcome (agree_checkArity arity args.length m) fun a m₁ checked => ?_
    have same : m₁ = m := by
      unfold checkArity at checked
      split at checked <;> cases checked
      rfl
    rw [same]
    refine native_bare blind action args fun clock => ?_
    have reads : (m.heap.function id).readsClock = true := by
      rw [found, clock]
      rfl
    exact Heap.readsClock_of_function reads
  | user decl home =>
    simp only [Routine.bare, bareFunction_eq, FunctionDecl.arity, List.length_map]
    refine ((agree_checkArity decl.params.length args.length).bind fun _ => ?_) m
    refine (agree_newScope home).bind fun scope => ?_
    refine (agree_bindArguments scope decl.params args).bind fun _ => ?_
    refine ((ih.execAll decl.body).deeper.within scope).bind fun flow => ?_
    cases flow <;> exact agree_pure _

theorem Blind.instantiate_succ (ih : Blind host n) (id : ClassId) (args : List Value) :
    Agree (Scriptlet.instantiate host (n + 1) id args)
      (Scriptlet.instantiate host (n + 1) id args) := by
  unfold Scriptlet.instantiate
  refine .get_bind fun m => ?_
  rw [show m.bare.heap.classRecord id = (m.heap.classRecord id).bare from
    m.heap.bare_classRecord id]
  simp only [ClassRecord.bare_decl, arity_bareClass, ClassRecord.name_bare]
  refine (agree_checkArity _ _).bind fun _ => (agree_addObject _).bind fun object => ?_
  refine (ih.bindClass id object).bind fun bound => ?_
  cases bound.constructor with
  | none => exact agree_pure _
  | some constructor => exact (ih.callFunction constructor args).bind fun _ => agree_pure _

theorem Blind.bindMembers (ih : Blind host n) (object : ObjectId) (scope : ScopeId)
    (decl : ClassDecl Stmt) (inherited : Dict Value) :
    Agree (Scriptlet.bindMembers host n object scope decl inherited)
      (Scriptlet.bindMembers host n object scope (bareClass decl) inherited) := by
  unfold Scriptlet.bindMembers
  rw [bareClass_eq]
  refine ((ih.initFields object decl.fields).within scope).bind fun _ => ?_
  refine (agree_bindMethods object scope decl.methods inherited).bind fun methods => ?_
  cases decl.constructor with
  | none => exact (agree_pure none).bind fun _ => agree_pure _
  | some decl =>
    exact ((agree_addFunction (.user decl scope) rfl).map some).bind fun _ => agree_pure _

theorem Blind.bindClass_succ (ih : Blind host n) (id : ClassId) (object : ObjectId) :
    Agree (Scriptlet.bindClass host (n + 1) id object)
      (Scriptlet.bindClass host (n + 1) id object) := by
  unfold Scriptlet.bindClass
  refine .get_bind fun m => ?_
  rw [show m.bare.heap.classRecord id = (m.heap.classRecord id).bare from
    m.heap.bare_classRecord id]
  refine (agree_newScope _).bind fun scope => (agree_define _ _ _ _).bind fun _ => ?_
  rw [ClassRecord.bare_superclass]
  cases (m.heap.classRecord id).superclass with
  | none => exact (agree_pure _).bind fun _ => ih.bindMembers object scope _ _
  | some parent =>
    refine (ih.bindClass parent object).bind fun bound => .get_bind fun m' => ?_
    rw [show m'.bare.heap.classRecord parent = (m'.heap.classRecord parent).bare from
      m'.heap.bare_classRecord parent, ClassRecord.name_bare]
    refine (agree_bindInherited scope _ bound).bind fun _ => ?_
    exact (agree_pure _).bind fun _ => ih.bindMembers object scope _ _

theorem Blind.initFields_succ (ih : Blind host n) (object : ObjectId) (fields : List FieldDecl) :
    Agree (Scriptlet.initFields host (n + 1) object fields)
      (Scriptlet.initFields host (n + 1) object (fields.map FieldDecl.bare)) := by
  cases fields with
  | nil => exact agree_pure ()
  | cons field rest =>
    refine (ih.eval field.value).bind fun v => ?_
    exact (agree_write _ v).bind fun _ => ih.initFields object rest

theorem Blind.exec_succ (ih : Blind host n) (s : Stmt) :
    Agree (Stmt.exec host (n + 1) s) (Stmt.exec host (n + 1) s.bare) := by
  cases s with
  | declare name value constant =>
    have declared (v : Value) : Agree
        (do
          define (← get).scope name.text v (!constant)
          return Flow.next)
        (do
          define (← get).scope name.bare.text v (!constant)
          return Flow.next) :=
      .get_bind fun m => (agree_define _ _ _ _).bind fun _ => agree_pure _
    cases value with
    | none => exact (agree_pure _).bind declared
    | some e => exact (ih.eval e).bind declared
  | function decl => exact (agree_declareFunction decl).bind fun _ => agree_pure _
  | classDecl decl => exact (agree_declareClass decl).bind fun _ => agree_pure _
  | ret span value =>
    refine .get_bind fun m => ?_
    rw [show m.bare.depth = m.depth from rfl]
    split
    · exact agree_fault rfl
    · cases value with
      | none => exact (agree_pure _).bind fun _ => agree_pure _
      | some e => exact (ih.eval e).bind fun _ => agree_pure _
  | expr e => exact (ih.eval e).bind fun _ => agree_pure _
  | block body =>
    refine .get_bind fun m => (agree_newScope _).bind fun scope => ?_
    exact (ih.execAll body).within scope
  | branch condition yes no =>
    refine (ih.eval condition).bind fun v => .get_bind fun m => ?_
    rw [show m.bare.heap.toBool v = m.heap.toBool v from m.heap.bare_toBool v]
    split
    · exact ih.exec yes
    · cases no with
      | none => exact agree_pure _
      | some no => exact ih.exec no
  | loop condition body => exact ih.execLoop condition body

theorem Blind.execAll_succ (ih : Blind host n) (body : List Stmt) :
    Agree (Stmt.execAll host (n + 1) body) (Stmt.execAll host (n + 1) (Stmt.bareAll body)) := by
  cases body with
  | nil => exact agree_pure _
  | cons s rest =>
    refine (ih.exec s).bind fun flow => ?_
    cases flow with
    | returned v => exact agree_pure _
    | next => exact ih.execAll rest

theorem Blind.execLoop_succ (ih : Blind host n) (condition : Expr) (body : Stmt) :
    Agree (Stmt.execLoop host (n + 1) condition body)
      (Stmt.execLoop host (n + 1) condition.bare body.bare) := by
  refine (ih.eval condition).bind fun v => .get_bind fun m => ?_
  rw [show m.bare.heap.toBool v = m.heap.toBool v from m.heap.bare_toBool v]
  split
  · refine (ih.exec body).bind fun flow => ?_
    cases flow with
    | returned v => exact agree_pure _
    | next => exact ih.execLoop condition body
  · exact agree_pure _

/-- **The evaluator does not look at places.** The induction is on the fuel. -/
theorem blind {host : Host} (blindHost : host.Blind) (n : Nat) : Blind host n := by
  induction n with
  | zero => exact blind_zero host
  | succ n ih =>
    exact ⟨ih.eval_succ, ih.evalAll_succ, ih.store_succ, ih.step_succ, ih.callValue_succ,
      ih.callFunction_succ blindHost, ih.instantiate_succ, ih.bindClass_succ, ih.initFields_succ,
      ih.exec_succ, ih.execAll_succ, ih.execLoop_succ⟩

/-- A program runs like its shape. -/
theorem agree_interpret {host : Host} (blindHost : host.Blind) (fuel : Nat) (mode : Mode)
    (statements : List Stmt) :
    Agree (interpret host fuel mode statements)
      (interpret host fuel mode (statements.map Stmt.bare)) := by
  induction statements with
  | nil => exact agree_pure ()
  | cons s rest ih =>
    have shown (e : Expr) : Agree
        (do
          let v ← Expr.eval host fuel e
          if !v.isNull then print ((← get).heap.text v ++ "\n")
          interpret host fuel mode rest)
        (do
          let v ← Expr.eval host fuel e.bare
          if !v.isNull then print ((← get).heap.text v ++ "\n")
          interpret host fuel mode (rest.map Stmt.bare)) := by
      refine ((blind blindHost fuel).eval e).bind fun v => ?_
      split
      · refine .get_bind fun m => ?_
        rw [show m.bare.heap.text v = m.heap.text v from m.heap.bare_text v]
        exact (agree_print _).bind fun _ => ih
      · exact ih
    have plain (s : Stmt) : Agree
        (do
          let _ ← Stmt.exec host fuel s
          interpret host fuel mode rest)
        (do
          let _ ← Stmt.exec host fuel s.bare
          interpret host fuel mode (rest.map Stmt.bare)) :=
      ((blind blindHost fuel).exec s).bind fun _ => ih
    cases mode with
    | file => exact plain s
    | interactive =>
      cases s with
      | expr e => exact shown e
      | _ => exact plain _

end Run

end Scriptlet
