import Scriptlet.Eval
import Scriptlet.Proofs.Sequence

/-!
# Footprints of runs

A footprint bounds what a run may change. It is a pair of relations between the machine before and
after a step: `expr` for evaluating expressions and calling values, and the wider `stmt` for
executing statements, which may also declare names in the scope they stand in. What makes it a
footprint is that

* **the primitives respect it** — writes, allocation, output, readings of the clock, new scopes,
  assignments and declarations;
* **a fresh scope is private** — what a statement declares in a scope that is younger than the
  machine at the start of an evaluation is invisible to `expr` once that scope is left.

Every part of the evaluator then respects it, whatever value, fault or lack of fuel it ends with
(`Footprint.respects`). The induction over the evaluator is done here once; properties that speak
about the machine before and after a run are instances.
-/

namespace Scriptlet

namespace Run

variable {α β : Type}

/-- The machine that a step leaves behind, whether it ends with a value or stops. -/
def after (r : Run α) (m : Machine) : Machine :=
  match r m with
  | .ok _ m => m
  | .error _ m => m

theorem after_eq_of_ok {r : Run α} {m m' : Machine} {a : α} (h : r m = .ok a m') :
    r.after m = m' := by
  rw [after, h]

theorem after_eq_of_error {r : Run α} {m m' : Machine} {e : Stop} (h : r m = .error e m') :
    r.after m = m' := by
  rw [after, h]

theorem after_bind_of_ok {r : Run α} {k : α → Run β} {m m' : Machine} {a : α}
    (h : r m = .ok a m') : (r >>= k).after m = (k a).after m' := by
  rw [after, bind_of_ok h, after]

theorem after_bind_of_error {r : Run α} {k : α → Run β} {m m' : Machine} {e : Stop}
    (h : r m = .error e m') : (r >>= k).after m = m' :=
  after_eq_of_error (bind_of_error h)

/-- Giving a fault a place leaves the machine alone. -/
@[simp] theorem after_locating (span : Span) (r : Run α) (m : Machine) :
    (locating span r).after m = r.after m := by
  unfold after locating
  cases r m with
  | ok a m => rfl
  | error e m => cases e <;> rfl

/-- Leaving a scope restores the one that was current before. -/
@[simp] theorem after_within (scope : ScopeId) (r : Run α) (m : Machine) :
    (within scope r).after m = { r.after { m with scope } with scope := m.scope } := by
  unfold after within
  cases r { m with scope } <;> rfl

theorem within_eq_ok {r : Run α} {scope : ScopeId} {m m' : Machine} {a : α}
    (h : within scope r m = .ok a m') :
    ∃ m₁, r { m with scope } = .ok a m₁ ∧ m' = { m₁ with scope := m.scope } := by
  unfold within at h
  cases hr : r { m with scope } <;> rw [hr] at h <;> cases h
  exact ⟨_, rfl, rfl⟩

@[simp] theorem after_deeper (r : Run α) (m : Machine) :
    (deeper r).after m =
      { r.after { m with depth := m.depth + 1 } with
        depth := (r.after { m with depth := m.depth + 1 }).depth - 1 } := by
  unfold after deeper
  cases r { m with depth := m.depth + 1 } <;> rfl

end Run

/-- What is left of binding a class after the names that it inherits. -/
def bindMembers (host : Host) (n : Nat) (object : ObjectId) (scope : ScopeId)
    (decl : ClassDecl Stmt) (inherited : Dict Value) : Run BoundClass := do
  Run.within scope (initFields host n object decl.fields)
  let methods ← Run.bindMethods object scope decl.methods inherited
  let constructor ← match decl.constructor with
    | some decl => some <$> Run.allocate (·.addFunction (.user decl scope))
    | none => pure none
  return ⟨methods, constructor⟩

/-- To show something of every program, show that it survives a statement that is executed and an
expression whose value is shown, in front of the rest of the program. -/
theorem interpret_induction {host : Host} {fuel : Nat} {mode : Mode}
    {motive : List Stmt → Run Unit → Prop} (nil : motive [] (pure ()))
    (executed : ∀ s rest, motive rest (interpret host fuel mode rest) → motive (s :: rest) (do
      let _ ← Stmt.exec host fuel s
      interpret host fuel mode rest))
    (shown : ∀ e rest, motive rest (interpret host fuel mode rest) → motive (.expr e :: rest) (do
      let v ← Expr.eval host fuel e
      if !v.isNull then Run.print ((← get).heap.text v ++ "\n")
      interpret host fuel mode rest))
    (p : List Stmt) : motive p (interpret host fuel mode p) := by
  induction p with
  | nil => exact nil
  | cons s rest ih =>
    unfold interpret
    cases mode with
    | file => exact executed s rest ih
    | interactive =>
      cases s with
      | expr e => exact shown e rest ih
      | _ => exact executed _ rest ih

/-- What evaluating and what executing may change. -/
structure Footprint where
  /-- The machines before and after evaluating an expression or calling a value. -/
  expr : Machine → Machine → Prop
  /-- The machines before and after executing a statement. -/
  stmt : Machine → Machine → Prop
  refl : ∀ m, expr m m
  trans : ∀ {a b c}, expr a b → expr b c → expr a c
  stmt_trans : ∀ {a b c}, stmt a b → stmt b c → stmt a c
  widen : ∀ {a b}, expr a b → stmt a b
  /-- No scope is ever removed. -/
  size_le : ∀ {a b}, expr a b → a.scopes.nodes.size ≤ b.scopes.nodes.size
  heap : ∀ m heap, expr m { m with heap }
  console : ∀ m console, expr m { m with console }
  clock : ∀ m, expr m { m with clock := m.clock.read.2 }
  child : ∀ m parent, expr m { m with scopes := (m.scopes.child parent).2 }
  assign : ∀ m name owner value, m.scopes.target m.scope name = .ok owner →
    expr m { m with scopes := m.scopes.define owner name value true }
  declare : ∀ m name value writable,
    stmt m { m with scopes := m.scopes.define m.scope name value writable }
  /-- Binding a name in a scope that `base` does not know yet. -/
  define_fresh : ∀ {base m} id name value writable, expr base m →
    base.scopes.nodes.size ≤ id.index →
      expr base { m with scopes := m.scopes.define id name value writable }
  /-- Executing inside a scope that `base` does not know yet. -/
  within_fresh : ∀ {base m m'} id, expr base m → base.scopes.nodes.size ≤ id.index →
    stmt { m with scope := id } m' → expr base { m' with scope := m.scope }
  deeper : ∀ {m m'}, stmt { m with depth := m.depth + 1 } m' →
    stmt m { m' with depth := m'.depth - 1 }

namespace Footprint

open Run

variable {α β : Type} (f : Footprint)

/-- A step that changes no more than an expression may. -/
def Evaluates (r : Run α) : Prop := ∀ m, f.expr m (r.after m)

/-- A step that changes no more than a statement may. -/
def Executes (r : Run α) : Prop := ∀ m, f.stmt m (r.after m)

/-- A step that, wherever it starts, changes no more since `base` than an expression may. Unlike
`Evaluates` it allows changes to scopes younger than `base`. -/
def Since (base : Machine) (r : Run α) : Prop := ∀ m, f.expr base m → f.expr base (r.after m)

variable {f}

/-! ## Closure under sequences -/

theorem Evaluates.since {r : Run α} (h : f.Evaluates r) (base : Machine) : f.Since base r :=
  fun m hm => f.trans hm (h m)

theorem Evaluates.of_since {r : Run α} (h : ∀ base, f.Since base r) : f.Evaluates r :=
  fun m => h m m (f.refl m)

theorem Evaluates.executes {r : Run α} (h : f.Evaluates r) : f.Executes r :=
  fun m => f.widen (h m)

theorem Since.bind {base : Machine} {r : Run α} {k : α → Run β} (hr : f.Since base r)
    (hk : ∀ a, f.Since base (k a)) : f.Since base (r >>= k) := by
  intro m hm
  have h := hr m hm
  cases hrm : r m with
  | ok a m' =>
    rw [after_bind_of_ok hrm]
    exact hk a m' (after_eq_of_ok hrm ▸ h)
  | error e m' =>
    rw [after_bind_of_error hrm]
    exact after_eq_of_error hrm ▸ h

theorem Evaluates.bind {r : Run α} {k : α → Run β} (hr : f.Evaluates r)
    (hk : ∀ a, f.Evaluates (k a)) : f.Evaluates (r >>= k) :=
  .of_since fun base => (hr.since base).bind fun a => (hk a).since base

theorem Executes.bind {r : Run α} {k : α → Run β} (hr : f.Executes r)
    (hk : ∀ a, f.Executes (k a)) : f.Executes (r >>= k) := by
  intro m
  have h := hr m
  cases hrm : r m with
  | ok a m' =>
    rw [after_eq_of_ok hrm] at h
    rw [after_bind_of_ok hrm]
    exact f.stmt_trans h (hk a m')
  | error e m' =>
    rw [after_bind_of_error hrm]
    exact after_eq_of_error hrm ▸ h

/-- A step that may branch on the machine it starts from. -/
theorem Since.get_bind {base : Machine} {k : Machine → Run β} (hk : ∀ m, f.Since base (k m)) :
    f.Since base (get >>= k) := fun m hm => hk m m hm

theorem Evaluates.get_bind {k : Machine → Run β} (hk : ∀ m, f.Evaluates (k m)) :
    f.Evaluates (get >>= k) := fun m => hk m m

theorem Executes.get_bind {k : Machine → Run β} (hk : ∀ m, f.Executes (k m)) :
    f.Executes (get >>= k) := fun m => hk m m

/-! ## Primitives -/

theorem evaluates_pure (a : α) : f.Evaluates (pure a : Run α) := fun m => f.refl m

theorem evaluates_stop (why : Stop) : f.Evaluates (stop why : Run α) := fun m => f.refl m

theorem evaluates_fault (x : Fault) : f.Evaluates (fault x : Run α) := evaluates_stop _

theorem evaluates_onHeap (g : Heap → Except Fault α) : f.Evaluates (onHeap g) := by
  intro m
  unfold after onHeap
  cases g m.heap <;> exact f.refl m

theorem evaluates_write (place : Place) (value : Value) : f.Evaluates (write place value) :=
  fun m => f.heap m _

theorem evaluates_allocate (g : Heap → α × Heap) : f.Evaluates (allocate g) :=
  fun m => f.heap m _

theorem evaluates_print (text : String) : f.Evaluates (print text) := fun m => f.console m _

theorem Evaluates.locating {r : Run α} (h : f.Evaluates r) (span : Span) :
    f.Evaluates (locating span r) := by
  intro m
  rw [after_locating]
  exact h m

theorem evaluates_lookup (name : Name) : f.Evaluates (lookup name) := by
  intro m
  unfold after lookup
  cases m.scopes.get? m.scope name.text <;> exact f.refl m

theorem evaluates_assign (name : Name) (value : Value) : f.Evaluates (Run.assign name value) := by
  intro m
  unfold after Run.assign
  cases h : m.scopes.target m.scope name.text with
  | ok owner => exact f.assign m name.text owner value h
  | error e => exact f.refl m

theorem evaluates_checkArity (expected got : Nat) : f.Evaluates (checkArity expected got) := by
  unfold checkArity
  split
  · exact evaluates_pure ()
  · exact evaluates_fault _

/-- Declaring a name in the current scope, and going on. -/
theorem executes_declare {k : Run α} (hk : f.Executes k) (name : String) (value : Value)
    (writable : Bool) : f.Executes (do define (← get).scope name value writable; k) :=
  fun m => f.stmt_trans (f.declare m name value writable) (hk _)

/-! ## Scopes younger than the start -/

theorem Since.newScope_bind {base : Machine} {parent : ScopeId} {k : ScopeId → Run β}
    (hk : ∀ id, base.scopes.nodes.size ≤ id.index → f.Since base (k id)) :
    f.Since base (newScope parent >>= k) := by
  intro m hm
  have hchild := f.trans hm (f.child m parent)
  exact hk ⟨m.scopes.nodes.size⟩ (f.size_le hm) _ hchild

theorem since_define {base : Machine} {id : ScopeId} (fresh : base.scopes.nodes.size ≤ id.index)
    (name : String) (value : Value) (writable : Bool) :
    f.Since base (define id name value writable) :=
  fun _ hm => f.define_fresh id name value writable hm fresh

theorem Executes.since_within {base : Machine} {id : ScopeId} {r : Run α} (hr : f.Executes r)
    (fresh : base.scopes.nodes.size ≤ id.index) : f.Since base (within id r) := by
  intro m hm
  rw [after_within]
  exact f.within_fresh id hm fresh (hr { m with scope := id })

theorem Executes.deeper {r : Run α} (hr : f.Executes r) : f.Executes (Run.deeper r) := by
  intro m
  rw [after_deeper]
  exact f.deeper (hr { m with depth := m.depth + 1 })

theorem since_bindArguments {base : Machine} {id : ScopeId}
    (fresh : base.scopes.nodes.size ≤ id.index) (params : List Name) (args : List Value) :
    f.Since base (bindArguments id params args) := by
  induction params generalizing args with
  | nil => exact (evaluates_pure ()).since base
  | cons param params ih =>
    cases args with
    | nil => exact (evaluates_pure ()).since base
    | cons arg args => exact (since_define fresh param.text arg true).bind fun _ => ih args

theorem since_bindInherited {base : Machine} {id : ScopeId}
    (fresh : base.scopes.nodes.size ≤ id.index) (parentName : String) (bound : BoundClass) :
    f.Since base (bindInherited id parentName bound) := by
  refine ((evaluates_allocate _).since base).bind fun object => ?_
  refine (since_define fresh "base" _ false).bind fun _ => ?_
  cases bound.constructor with
  | some constructor =>
    exact ((evaluates_pure constructor).since base).bind fun _ => since_define fresh "super" _ false
  | none =>
    exact ((evaluates_allocate _).since base).bind fun _ => since_define fresh "super" _ false

theorem evaluates_bindMethods (object : ObjectId) (scope : ScopeId)
    (decls : List (FunctionDecl Stmt)) (methods : Dict Value) :
    f.Evaluates (bindMethods object scope decls methods) := by
  induction decls generalizing methods with
  | nil => exact evaluates_pure methods
  | cons decl rest ih =>
    refine (evaluates_allocate _).bind fun id => ?_
    exact (evaluates_write _ _).bind fun _ => ih _

/-! ## Declarations and native functions -/

theorem executes_declareFunction (decl : FunctionDecl Stmt) :
    f.Executes (declareFunction decl) := by
  intro m
  have allocated := f.heap m (m.heap.addFunction (.user decl m.scope)).2
  exact f.stmt_trans (f.widen allocated) (f.declare _ _ _ true)

theorem evaluates_superclass (name : Name) : f.Evaluates (superclass name) := by
  intro m
  unfold after superclass
  split
  · rename_i m' heq
    split at heq <;> cases heq
    exact f.refl m
  · rename_i m' heq
    split at heq <;> cases heq <;> exact f.refl m

theorem executes_declareClass (decl : ClassDecl Stmt) : f.Executes (declareClass decl) := by
  have declared (parent : Option ClassId) : f.Executes (do
      let here := (← get).scope
      let id ← allocate (·.addClass ⟨decl, here, parent⟩)
      define here decl.name.text (.cls id) true) := by
    intro m
    have allocated := f.heap m (m.heap.addClass ⟨decl, m.scope, parent⟩).2
    exact f.stmt_trans (f.widen allocated) (f.declare _ _ _ true)
  unfold declareClass
  cases decl.superclass with
  | none => exact (evaluates_pure none).executes.bind declared
  | some name =>
    have found := (evaluates_superclass name).bind fun id => evaluates_pure (f := f) (some id)
    exact found.executes.bind declared

theorem evaluates_nativePrint (args : List Value) : f.Evaluates (Native.print args) := by
  intro m
  cases args with
  | nil => exact f.refl m
  | cons v rest => exact f.console m _

theorem evaluates_readLine : f.Evaluates Native.readLine := by
  intro m
  unfold after Native.readLine
  obtain ⟨answer, console⟩ := m.console.readLine
  cases answer <;> exact f.console m console

theorem evaluates_epoch : f.Evaluates Native.epoch := by
  have read : f.Evaluates readClock := by
    intro m
    have taken := f.clock m
    unfold after readClock
    cases found : m.clock.read with
    | mk reading clock =>
      rw [found] at taken
      cases reading <;> exact taken
  exact read.bind fun _ => evaluates_onHeap _

theorem evaluates_native (host : Host) (action : NativeAction) (args : List Value) :
    f.Evaluates (Native.call host action args) := by
  unfold Native.call
  cases action with
  | print => exact (evaluates_nativePrint args).bind fun _ => evaluates_pure _
  | readLine => exact (evaluates_nativePrint args).bind fun _ => evaluates_readLine
  | clock => exact evaluates_epoch
  | character => exact evaluates_onHeap _
  | nothing => exact evaluates_pure _
  | host key =>
    refine (evaluates_onHeap _).bind fun reply => ?_
    cases reply with
    | value v => exact evaluates_pure v
    | array items => exact (evaluates_allocate _).bind fun _ => evaluates_pure _

/-! ## The evaluator -/

/-- Every function of the evaluator respects a footprint with a given fuel. -/
structure Respects (f : Footprint) (host : Host) (n : Nat) : Prop where
  eval : ∀ e, f.Evaluates (Expr.eval host n e)
  evalAll : ∀ es, f.Evaluates (Expr.evalAll host n es)
  store : ∀ target value, f.Evaluates (Expr.store host n target value)
  step : ∀ op target, f.Evaluates (Expr.step host n op target)
  callValue : ∀ callee args, f.Evaluates (callValue host n callee args)
  callFunction : ∀ id args, f.Evaluates (callFunction host n id args)
  instantiate : ∀ id args, f.Evaluates (instantiate host n id args)
  bindClass : ∀ id object, f.Evaluates (bindClass host n id object)
  initFields : ∀ object fields, f.Evaluates (initFields host n object fields)
  exec : ∀ s, f.Executes (Stmt.exec host n s)
  execAll : ∀ body, f.Executes (Stmt.execAll host n body)
  execLoop : ∀ condition body, f.Executes (Stmt.execLoop host n condition body)

variable {host : Host} {n : Nat}

theorem respects_zero : f.Respects host 0 := by
  constructor <;> intros <;> first | exact evaluates_stop _ | exact (evaluates_stop _).executes

theorem Respects.eval_succ (ih : f.Respects host n) (e : Expr) :
    f.Evaluates (Expr.eval host (n + 1) e) := by
  unfold Expr.eval
  refine Evaluates.locating ?_ e.span
  cases e with
  | literal span value => exact evaluates_pure _
  | ident name => exact evaluates_lookup name
  | group span inner => exact ih.eval inner
  | array span elements =>
    refine (ih.evalAll elements).bind fun items => ?_
    exact (evaluates_allocate _).bind fun _ => evaluates_pure _
  | unary span op operand => exact (ih.eval operand).bind fun _ => evaluates_onHeap _
  | stepThenTake span op operand =>
    exact (ih.step op operand).bind fun _ => evaluates_pure _
  | takeThenStep span op operand =>
    exact (ih.step op operand).bind fun _ => evaluates_pure _
  | binary span op left right =>
    refine (ih.eval left).bind fun _ => ?_
    exact (ih.eval right).bind fun _ => evaluates_onHeap _
  | logical span op left right =>
    refine (ih.eval left).bind fun a => .get_bind fun m => ?_
    split
    · exact evaluates_pure _
    · exact (ih.eval right).bind fun _ => .get_bind fun _ => evaluates_pure _
  | ternary span condition yes no =>
    refine (ih.eval condition).bind fun v => .get_bind fun m => ?_
    split
    · exact ih.eval yes
    · exact ih.eval no
  | assign span target value =>
    refine (ih.eval value).bind fun v => ?_
    exact (ih.store target v).bind fun _ => evaluates_pure v
  | index span target position =>
    refine (ih.eval target).bind fun _ => ?_
    exact (ih.eval position).bind fun _ => evaluates_onHeap _
  | field span target name =>
    exact (ih.eval target).bind fun _ => (evaluates_onHeap _).locating name.span
  | call span callee args =>
    refine (ih.eval callee).bind fun callee => ?_
    refine (ih.evalAll args).bind fun values => ?_
    split
    · exact ih.callValue callee values
    · exact evaluates_fault _

theorem Respects.evalAll_succ (ih : f.Respects host n) (es : List Expr) :
    f.Evaluates (Expr.evalAll host (n + 1) es) := by
  cases es with
  | nil => exact evaluates_pure []
  | cons e rest =>
    unfold Expr.evalAll
    refine (ih.eval e).bind fun _ => ?_
    exact (ih.evalAll rest).bind fun _ => evaluates_pure _

theorem Respects.store_succ (ih : f.Respects host n) (target : Expr) (value : Value) :
    f.Evaluates (Expr.store host (n + 1) target value) := by
  unfold Expr.store
  split
  · exact evaluates_assign _ _
  · refine (ih.eval _).bind fun _ => (ih.eval _).bind fun _ => ?_
    exact (evaluates_onHeap _).bind fun _ => evaluates_write _ _
  · refine (ih.eval _).bind fun _ => ?_
    exact ((evaluates_onHeap _).locating _).bind fun _ => evaluates_write _ _
  · exact evaluates_fault _

theorem Respects.step_succ (ih : f.Respects host n) (op : StepOp) (target : Expr) :
    f.Evaluates (Expr.step host (n + 1) op target) := by
  unfold Expr.step
  split
  · refine (ih.eval target).bind fun _ => (evaluates_onHeap _).bind fun _ => ?_
    exact (ih.store target _).bind fun _ => evaluates_pure _
  · exact evaluates_fault _

theorem Respects.callValue_succ (ih : f.Respects host n) (callee : Value) (args : List Value) :
    f.Evaluates (Scriptlet.callValue host (n + 1) callee args) := by
  unfold Scriptlet.callValue
  split
  · exact ih.callFunction _ args
  · exact ih.instantiate _ args
  · exact evaluates_fault _

/-- The scope of a function body is younger than the machine at the call, so nothing the body
declares is visible afterwards. -/
theorem Respects.callFunction_succ (ih : f.Respects host n) (id : FunctionId)
    (args : List Value) : f.Evaluates (Scriptlet.callFunction host (n + 1) id args) := by
  unfold Scriptlet.callFunction
  refine .get_bind fun m => ?_
  cases m.heap.function id with
  | native name arity action =>
    exact (evaluates_checkArity arity args.length).bind fun _ => evaluates_native host action args
  | user decl home =>
    refine (evaluates_checkArity decl.arity args.length).bind fun _ => .of_since fun base => ?_
    refine .newScope_bind fun scope fresh => ?_
    refine (since_bindArguments fresh decl.params args).bind fun _ => ?_
    refine ((ih.execAll decl.body).deeper.since_within fresh).bind fun flow => ?_
    cases flow <;> exact (evaluates_pure _).since base

theorem Respects.instantiate_succ (ih : f.Respects host n) (id : ClassId) (args : List Value) :
    f.Evaluates (Scriptlet.instantiate host (n + 1) id args) := by
  unfold Scriptlet.instantiate
  refine .get_bind fun m => (evaluates_checkArity _ _).bind fun _ => ?_
  refine (evaluates_allocate _).bind fun object => (ih.bindClass id object).bind fun bound => ?_
  cases bound.constructor with
  | none => exact evaluates_pure _
  | some constructor => exact (ih.callFunction constructor args).bind fun _ => evaluates_pure _

theorem Respects.since_bindMembers (ih : f.Respects host n) {base : Machine} {scope : ScopeId}
    (fresh : base.scopes.nodes.size ≤ scope.index) (object : ObjectId) (decl : ClassDecl Stmt)
    (inherited : Dict Value) : f.Since base (bindMembers host n object scope decl inherited) := by
  refine ((ih.initFields object decl.fields).executes.since_within fresh).bind fun _ => ?_
  refine ((evaluates_bindMethods _ _ _ _).since base).bind fun methods => ?_
  cases decl.constructor with
  | none => exact ((evaluates_pure _).bind fun _ => evaluates_pure _).since base
  | some decl =>
    have allocated := (evaluates_allocate (f := f)
      (fun h : Heap => h.addFunction (.user decl scope))).bind fun id =>
        evaluates_pure (some id)
    exact (allocated.bind fun _ => evaluates_pure _).since base

theorem Respects.bindClass_succ (ih : f.Respects host n) (id : ClassId) (object : ObjectId) :
    f.Evaluates (Scriptlet.bindClass host (n + 1) id object) := by
  unfold Scriptlet.bindClass
  refine .get_bind fun m => .of_since fun base => .newScope_bind fun scope fresh => ?_
  refine (since_define fresh "this" _ false).bind fun _ => ?_
  cases (m.heap.classRecord id).superclass with
  | none =>
    exact ((evaluates_pure _).since base).bind fun _ => ih.since_bindMembers fresh object _ _
  | some parent =>
    refine ((ih.bindClass parent object).since base).bind fun bound => .get_bind fun m' => ?_
    refine (since_bindInherited fresh _ bound).bind fun _ => ?_
    exact ((evaluates_pure _).since base).bind fun _ => ih.since_bindMembers fresh object _ _

theorem Respects.initFields_succ (ih : f.Respects host n) (object : ObjectId)
    (fields : List FieldDecl) :
    f.Evaluates (Scriptlet.initFields host (n + 1) object fields) := by
  cases fields with
  | nil => exact evaluates_pure ()
  | cons field rest =>
    unfold Scriptlet.initFields
    refine (ih.eval field.value).bind fun _ => ?_
    exact (evaluates_write _ _).bind fun _ => ih.initFields object rest

/-- A block declares names in a scope of its own, so it changes no more than an expression. -/
theorem Respects.block_succ (ih : f.Respects host n) (body : List Stmt) :
    f.Evaluates (Stmt.exec host (n + 1) (.block body)) := by
  unfold Stmt.exec
  refine .get_bind fun m => .of_since fun base => .newScope_bind fun scope fresh => ?_
  exact (ih.execAll body).since_within fresh

theorem Respects.exec_succ (ih : f.Respects host n) (s : Stmt) :
    f.Executes (Stmt.exec host (n + 1) s) := by
  cases s with
  | declare name value constant =>
    unfold Stmt.exec
    cases value with
    | none =>
      refine (evaluates_pure _).executes.bind fun v => ?_
      exact executes_declare (evaluates_pure _).executes name.text v _
    | some e =>
      refine (ih.eval e).executes.bind fun v => ?_
      exact executes_declare (evaluates_pure _).executes name.text v _
  | function decl =>
    unfold Stmt.exec
    exact (executes_declareFunction decl).bind fun _ => (evaluates_pure _).executes
  | classDecl decl =>
    unfold Stmt.exec
    exact (executes_declareClass decl).bind fun _ => (evaluates_pure _).executes
  | ret span value =>
    unfold Stmt.exec
    refine .get_bind fun m => Evaluates.executes ?_
    split
    · exact evaluates_fault _
    · cases value with
      | none => exact (evaluates_pure _).bind fun _ => evaluates_pure _
      | some e => exact (ih.eval e).bind fun _ => evaluates_pure _
  | expr e =>
    unfold Stmt.exec
    exact ((ih.eval e).bind fun _ => evaluates_pure _).executes
  | block body => exact (ih.block_succ body).executes
  | branch condition yes no =>
    unfold Stmt.exec
    refine (ih.eval condition).executes.bind fun v => .get_bind fun m => ?_
    split
    · exact ih.exec yes
    · cases no with
      | none => exact (evaluates_pure _).executes
      | some no => exact ih.exec no
  | loop condition body =>
    unfold Stmt.exec
    exact ih.execLoop condition body

theorem Respects.execAll_succ (ih : f.Respects host n) (body : List Stmt) :
    f.Executes (Stmt.execAll host (n + 1) body) := by
  cases body with
  | nil => exact (evaluates_pure _).executes
  | cons s rest =>
    unfold Stmt.execAll
    refine (ih.exec s).bind fun flow => ?_
    cases flow with
    | returned v => exact (evaluates_pure _).executes
    | next => exact ih.execAll rest

theorem Respects.execLoop_succ (ih : f.Respects host n) (condition : Expr) (body : Stmt) :
    f.Executes (Stmt.execLoop host (n + 1) condition body) := by
  unfold Stmt.execLoop
  refine (ih.eval condition).executes.bind fun v => .get_bind fun m => ?_
  split
  · refine (ih.exec body).bind fun flow => ?_
    cases flow with
    | returned v => exact (evaluates_pure _).executes
    | next => exact ih.execLoop condition body
  · exact (evaluates_pure _).executes

/-- **The evaluator respects every footprint.** The induction is on the fuel, as every call inside
the evaluator hands on less of it. -/
theorem respects (f : Footprint) (host : Host) (n : Nat) : f.Respects host n := by
  induction n with
  | zero => exact respects_zero
  | succ n ih =>
    exact ⟨ih.eval_succ, ih.evalAll_succ, ih.store_succ, ih.step_succ, ih.callValue_succ,
      ih.callFunction_succ, ih.instantiate_succ, ih.bindClass_succ, ih.initFields_succ,
      ih.exec_succ, ih.execAll_succ, ih.execLoop_succ⟩

/-- A whole program executes like its statements one after the other; showing a value on the way
only writes to the console. -/
theorem executes_interpret (f : Footprint) (host : Host) (fuel : Nat) (mode : Mode)
    (statements : List Stmt) : f.Executes (interpret host fuel mode statements) := by
  have parts := f.respects host fuel
  refine interpret_induction (motive := fun _ run => f.Executes run) ?nil ?executed ?shown statements
  case nil => exact (evaluates_pure ()).executes
  case executed =>
    intro s rest ih
    exact (parts.exec s).bind fun _ => ih
  case shown =>
    intro e rest ih
    refine (parts.eval e).executes.bind fun v => ?_
    split
    · exact .get_bind fun m => (evaluates_print _).executes.bind fun _ => ih
    · exact ih

end Footprint
end Scriptlet
