import Scriptlet.Proofs.Footprint

/-!
# Traces of runs

The trace of a run is a tree. Its nodes are the tasks that the evaluator takes on: to evaluate an
expression, to execute a statement or the statements of a body in turn, to call a function, to
create an object. A node knows the machine at the start of its task, the tasks taken on inside it in
their order, how the task ended, and the machine at its end.

The evaluator is repeated here over traced steps, which are steps together with the trees of the
tasks inside them. A tree is put up in one place for each kind of task. The nodes are real:
forgetting them gives the evaluator back, and each of them reports what the evaluator does with its
task from its start on (`Law.genuine`, in the module on the laws of traces).
-/

namespace Scriptlet

/-- What the evaluator takes on. -/
inductive Task where
  | eval (e : Expr)
  | exec (s : Stmt)
  /-- Execute the statements of a block or of a function in turn. -/
  | body (statements : List Stmt)
  | call (id : FunctionId) (args : List Value)
  | create (id : ClassId) (args : List Value)

/-- How a task ended. -/
inductive Report where
  | value (v : Value)
  | flow (flow : Flow)
  | stopped (why : Stop)
deriving DecidableEq

/-- The report of a run, with `f` for its value. -/
def Report.ofResult {α : Type} (f : α → Report) : EStateM.Result Stop Machine α → Report
  | .ok a _ => f a
  | .error why _ => .stopped why

/-- A task from its start to its end. -/
inductive Trace where
  | node (task : Task) (start : Machine) (inner : List Trace) (report : Report) (finish : Machine)

namespace Trace

def task : Trace → Task
  | node task _ _ _ _ => task

def start : Trace → Machine
  | node _ start _ _ _ => start

/-- The tasks directly inside a task, in their order. -/
def inner : Trace → List Trace
  | node _ _ inner _ _ => inner

def report : Trace → Report
  | node _ _ _ report _ => report

def finish : Trace → Machine
  | node _ _ _ _ finish => finish

/-- Whether a task is the call of a function that the program declares. What happens inside such a
task happens in the body of the function. -/
def isActivation (t : Trace) : Bool :=
  match t.task with
  | .call id _ => !(t.start.heap.function id).isNative
  | _ => false

/-- A task inside a task, or the task itself, with the tasks around it, the innermost first. -/
inductive Within (root : Trace) : List Trace → Trace → Prop
  | self : Within root [] root
  | inside {around : List Trace} {parent child : Trace} : Within root around parent →
      child ∈ parent.inner → Within root (parent :: around) child

/-- How many activations of declared functions there are among some tasks. -/
def activations (around : List Trace) : Nat := around.countP isActivation

end Trace

/-- What the evaluator does with a task, up to a bound on the length of the run. -/
def Task.outcome (host : Host) (n : Nat) (task : Task) (m : Machine) : Report × Machine :=
  match task with
  | eval e => (.ofResult .value (Expr.eval host n e m), (Expr.eval host n e).after m)
  | exec s => (.ofResult .flow (Stmt.exec host n s m), (Stmt.exec host n s).after m)
  | body ss => (.ofResult .flow (Stmt.execAll host n ss m), (Stmt.execAll host n ss).after m)
  | call id args =>
    (.ofResult .value (callFunction host n id args m), (callFunction host n id args).after m)
  | create id args =>
    (.ofResult .value (instantiate host n id args m), (instantiate host n id args).after m)

/-- A step with the traces of the tasks inside it, from each machine it may start in. -/
structure Traced (α : Type) where
  run : Run α
  inner : Machine → List Trace

namespace Traced

variable {α β : Type}

/-- What goes on after a step, if it ended with a value. -/
def innerAfter (r : Run α) (next : α → Machine → List Trace) (m : Machine) : List Trace :=
  match r m with
  | .ok a m' => next a m'
  | .error _ _ => []

instance : Monad Traced where
  pure a := ⟨pure a, fun _ => []⟩
  bind w f :=
    ⟨w.run >>= fun a => (f a).run,
      fun m => w.inner m ++ innerAfter w.run (fun a => (f a).inner) m⟩

/-- A step without tasks inside it. -/
def quiet (r : Run α) : Traced α := ⟨r, fun _ => []⟩

/-- A step as a task of its own, which reports the value of the step by `f`. -/
def doing (task : Task) (f : α → Report) (w : Traced α) : Traced α :=
  ⟨w.run, fun m => [.node task m (w.inner m) (.ofResult f (w.run m)) (w.run.after m)]⟩

def locating (span : Span) (w : Traced α) : Traced α := ⟨Run.locating span w.run, w.inner⟩

def within (scope : ScopeId) (w : Traced α) : Traced α :=
  ⟨Run.within scope w.run, fun m => w.inner { m with scope }⟩

def deeper (w : Traced α) : Traced α :=
  ⟨Run.deeper w.run, fun m => w.inner { m with depth := m.depth + 1 }⟩

end Traced

open Run Traced

mutual

/-- Trace the evaluation of an expression. -/
def Expr.trace (host : Host) : Nat → Expr → Traced Value
  | 0, _ => quiet (stop .outOfFuel)
  | n + 1, e => doing (.eval e) .value <| Traced.locating e.span <|
    match e with
    | .literal _ value => pure value.value
    | .ident name => quiet (lookup name)
    | .group _ enclosed => Expr.trace host n enclosed
    | .array _ elements => do
      let items ← Expr.traceAll host n elements
      let id ← quiet (allocate (·.addArray items.toArray))
      return .array id
    | .unary _ op operand => do
      let v ← Expr.trace host n operand
      quiet (onHeap (·.unary op v))
    | .stepThenTake _ op operand => do
      let (_, new) ← Expr.traceStep host n op operand
      return .number new
    | .takeThenStep _ op operand => do
      let (old, _) ← Expr.traceStep host n op operand
      return .number old
    | .binary _ op left right => do
      let a ← Expr.trace host n left
      let b ← Expr.trace host n right
      quiet (onHeap (·.binary op a b))
    | .logical _ op left right => do
      let a ← Expr.trace host n left
      match shortCircuit? (← quiet get).heap op a with
      | some v => return v
      | none =>
        let b ← Expr.trace host n right
        return afterRight (← quiet get).heap op b
    | .ternary _ condition yes no => do
      let v ← Expr.trace host n condition
      if (← quiet get).heap.toBool v then Expr.trace host n yes else Expr.trace host n no
    | .assign _ target value => do
      let v ← Expr.trace host n value
      Expr.traceStore host n target v
      return v
    | .index _ target position => do
      let t ← Expr.trace host n target
      let i ← Expr.trace host n position
      quiet (onHeap (·.indexGet t i))
    | .field _ target name => do
      let t ← Expr.trace host n target
      quiet (Run.locating name.span (onHeap (·.fieldGet t name.text)))
    | .call _ callee args => do
      let f ← Expr.trace host n callee
      let values ← Expr.traceAll host n args
      if f.kind.isCallable then traceValue host n f values
      else quiet (fault { cause := .notCallable f.kind, span := some callee.span })

def Expr.traceAll (host : Host) : Nat → List Expr → Traced (List Value)
  | 0, _ => quiet (stop .outOfFuel)
  | _ + 1, [] => pure []
  | n + 1, e :: rest => do
    let v ← Expr.trace host n e
    let vs ← Expr.traceAll host n rest
    return v :: vs

def Expr.traceStore (host : Host) : Nat → Expr → Value → Traced Unit
  | 0, _, _ => quiet (stop .outOfFuel)
  | n + 1, target, value =>
    match target with
    | .ident name => quiet (assign name value)
    | .index _ target position => do
      let t ← Expr.trace host n target
      let i ← Expr.trace host n position
      quiet (write (← quiet (onHeap (·.itemPlace t i))) value)
    | .field _ target name => do
      let t ← Expr.trace host n target
      quiet (write (← quiet (Run.locating name.span (onHeap fun _ =>
        Heap.fieldPlace t name.text))) value)
    | other => quiet (fault { cause := .invalidTarget, span := some other.span })

def Expr.traceStep (host : Host) : Nat → StepOp → Expr → Traced (Float × Float)
  | 0, _, _ => quiet (stop .outOfFuel)
  | n + 1, op, target =>
    if target.isAssignable then do
      let v ← Expr.trace host n target
      let old ← quiet (onHeap (·.toNumber v))
      let new := old + op.delta
      Expr.traceStore host n target (.number new)
      return (old, new)
    else quiet (fault FaultCause.invalidTarget)

def traceValue (host : Host) : Nat → Value → List Value → Traced Value
  | 0, _, _ => quiet (stop .outOfFuel)
  | n + 1, callee, args =>
    match callee with
    | .function id => traceFunction host n id args
    | .cls id => traceInstantiate host n id args
    | v => quiet (fault (FaultCause.notCallable v.kind))

/-- Trace a call. The statements of the body of a declared function are a task inside it. -/
def traceFunction (host : Host) : Nat → FunctionId → List Value → Traced Value
  | 0, _, _ => quiet (stop .outOfFuel)
  | n + 1, id, args => doing (.call id args) .value do
    match (← quiet get).heap.function id with
    | .native _ arity action =>
      quiet (checkArity arity args.length)
      quiet (Native.call host action args)
    | .user decl home =>
      quiet (checkArity decl.arity args.length)
      let scope ← quiet (newScope home)
      quiet (bindArguments scope decl.params args)
      let body := doing (.body decl.body) .flow (Stmt.traceAll host n decl.body)
      match ← Traced.within scope (Traced.deeper body) with
      | .returned v => return v
      | .next => return .null

def traceInstantiate (host : Host) : Nat → ClassId → List Value → Traced Value
  | 0, _, _ => quiet (stop .outOfFuel)
  | n + 1, id, args => doing (.create id args) .value do
    let record := (← quiet get).heap.classRecord id
    quiet (checkArity record.decl.arity args.length)
    let object ← quiet (allocate (·.addObject ⟨record.name, .empty⟩))
    let bound ← traceClass host n id object
    match bound.constructor with
    | some constructor =>
      let _ ← traceFunction host n constructor args
      return .object object
    | none => return .object object

def traceClass (host : Host) : Nat → ClassId → ObjectId → Traced BoundClass
  | 0, _, _ => quiet (stop .outOfFuel)
  | n + 1, id, object => do
    let record := (← quiet get).heap.classRecord id
    let scope ← quiet (newScope record.home)
    quiet (define scope "this" (.object object) false)
    let inherited ← match record.superclass with
      | none => pure .empty
      | some parent =>
        let bound ← traceClass host n parent object
        quiet (bindInherited scope ((← quiet get).heap.classRecord parent).name bound)
        pure bound.methods
    Traced.within scope (traceFields host n object record.decl.fields)
    let methods ← quiet (bindMethods object scope record.decl.methods inherited)
    let constructor ← quiet (match record.decl.constructor with
      | some decl => some <$> allocate (·.addFunction (.user decl scope))
      | none => pure none)
    return ⟨methods, constructor⟩

def traceFields (host : Host) : Nat → ObjectId → List FieldDecl → Traced Unit
  | 0, _, _ => quiet (stop .outOfFuel)
  | _ + 1, _, [] => pure ()
  | n + 1, object, field :: rest => do
    let v ← Expr.trace host n field.value
    quiet (setField object field.name.text v)
    traceFields host n object rest

/-- Trace the execution of a statement. -/
def Stmt.trace (host : Host) : Nat → Stmt → Traced Flow
  | 0, _ => quiet (stop .outOfFuel)
  | n + 1, s => doing (.exec s) .flow <|
    match s with
    | .declare name value constant => do
      let v ← match value with
        | some e => Expr.trace host n e
        | none => pure .null
      quiet (define (← quiet get).scope name.text v (!constant))
      return .next
    | .function decl => do
      quiet (declareFunction decl)
      return .next
    | .classDecl decl => do
      quiet (declareClass decl)
      return .next
    | .ret span value => do
      if (← quiet get).depth = 0 then quiet (fault { cause := .strayReturn, span := some span })
      else
        let v ← match value with
          | some e => Expr.trace host n e
          | none => pure .null
        return .returned v
    | .expr e => do
      let _ ← Expr.trace host n e
      return .next
    | .block statements => do
      let scope ← quiet (newScope (← quiet get).scope)
      Traced.within scope (doing (.body statements) .flow (Stmt.traceAll host n statements))
    | .branch condition yes no => do
      let v ← Expr.trace host n condition
      if (← quiet get).heap.toBool v then Stmt.trace host n yes
      else match no with
        | some no => Stmt.trace host n no
        | none => return .next
    | .loop condition body => Stmt.traceLoop host n condition body

def Stmt.traceAll (host : Host) : Nat → List Stmt → Traced Flow
  | 0, _ => quiet (stop .outOfFuel)
  | _ + 1, [] => pure .next
  | n + 1, s :: rest => do
    match ← Stmt.trace host n s with
    | .returned v => return .returned v
    | .next => Stmt.traceAll host n rest

def Stmt.traceLoop (host : Host) : Nat → Expr → Stmt → Traced Flow
  | 0, _, _ => quiet (stop .outOfFuel)
  | n + 1, condition, body => do
    let v ← Expr.trace host n condition
    if (← quiet get).heap.toBool v then
      match ← Stmt.trace host n body with
      | .returned v => return .returned v
      | .next => Stmt.traceLoop host n condition body
    else return .next

end

/-- Trace the run of a program. -/
def traceProgram (host : Host) (fuel : Nat) (mode : Mode) : List Stmt → Traced Unit
  | [] => pure ()
  | s :: rest => do
    match mode, s with
    | .interactive, .expr e =>
      let v ← Expr.trace host fuel e
      if !v.isNull then quiet (print ((← quiet get).heap.text v ++ "\n"))
    | _, s =>
      let _ ← Stmt.trace host fuel s
    traceProgram host fuel mode rest

end Scriptlet
