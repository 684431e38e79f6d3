import Scriptlet.Native
import Scriptlet.Reader.Stmt

/-!
# Evaluation

Expressions are evaluated and statements executed by recursion on the tree, with calls entering the
tree of the called function. As a program may run for ever, every step counts down a bound; a run
that reaches zero stops with `Stop.outOfFuel`, which is neither a value nor a fault. A larger bound
never changes the outcome of a run that ends.

Operands and arguments are evaluated from left to right; an assignment evaluates its value before
its target. A fault gets the span of the innermost expression that has none more exact.
-/

namespace Scriptlet

/-- What executing a statement leads to. -/
inductive Flow where
  /-- The next statement follows. -/
  | next
  /-- The innermost function call ends with a value. -/
  | returned (value : Value)
deriving DecidableEq, Repr

/-- What one class of a chain of superclasses contributes to the classes below it. -/
structure BoundClass where
  /-- The methods visible in the class, inherited ones included. -/
  methods : Dict Value
  /-- The constructor that the class itself declares. -/
  constructor : Option FunctionId

namespace Run

/-- Declare a function in the scope in which the program stands. -/
def declareFunction (decl : FunctionDecl Stmt) : Run Unit := do
  let here := (← get).scope
  let id ← allocate (·.addFunction (.user decl here))
  define here decl.name.text (.function id) true

/-- The class that a superclass clause names. -/
def superclass (name : Name) : Run ClassId := fun m =>
  match m.scopes.get? m.scope name.text with
  | some (.cls id) => .ok id m
  | some _ => .error (.fault { cause := .notAClass name.text, span := some name.span }) m
  | none => .error (.fault { cause := .undefinedVariable name.text, span := some name.span }) m

/-- Declare a class in the scope in which the program stands. -/
def declareClass (decl : ClassDecl Stmt) : Run Unit := do
  let parent ← match decl.superclass with
    | some name => some <$> superclass name
    | none => pure none
  let here := (← get).scope
  let id ← allocate (·.addClass ⟨decl, here, parent⟩)
  define here decl.name.text (.cls id) true

/-- Write a field of an object. -/
def setField (id : ObjectId) (name : String) (value : Value) : Run Unit :=
  write (.field id name) value

/-- Make methods functions of a scope, one after the other: each becomes a field of the object and
an entry of the table. -/
def bindMethods (object : ObjectId) (scope : ScopeId) :
    List (FunctionDecl Stmt) → Dict Value → Run (Dict Value)
  | [], methods => pure methods
  | decl :: rest, methods => do
    let id ← allocate (·.addFunction (.user decl scope))
    setField object decl.name.text (.function id)
    bindMethods object scope rest (methods.insert decl.name.text (.function id))

/-- Bind what a class inherits in its scope: `base` to an object with the inherited methods and
`super` to the inherited constructor, or to a function that does nothing. -/
def bindInherited (scope : ScopeId) (parentName : String) (bound : BoundClass) : Run Unit := do
  let base ← allocate (·.addObject ⟨parentName, bound.methods⟩)
  define scope "base" (.object base) false
  let constructor ← match bound.constructor with
    | some id => pure id
    | none => allocate (·.addFunction (.native "super" 0 .nothing))
  define scope "super" (.function constructor) false

/-- Bind arguments to parameters in a scope. -/
def bindArguments (scope : ScopeId) : List Name → List Value → Run Unit
  | param :: params, arg :: args => do
    define scope param.text arg true
    bindArguments scope params args
  | _, _ => pure ()

/-- The value of a short-circuit operator if the left operand decides it. -/
def shortCircuit? (h : Heap) (op : LogicalOp) (left : Value) : Option Value :=
  match op with
  | .and => if h.toBool left then none else some (.bool false)
  | .or => if h.toBool left then some (.bool true) else none
  | .coalesce => if left.isNull then none else some left

/-- The value of a short-circuit operator whose right operand was evaluated. -/
def afterRight (h : Heap) (op : LogicalOp) (right : Value) : Value :=
  match op with
  | .and | .or => .bool (h.toBool right)
  | .coalesce => right

end Run

open Run

mutual

/-- The value of an expression. -/
def Expr.eval (host : Host) : Nat → Expr → Run Value
  | 0, _ => stop .outOfFuel
  | n + 1, e => locating e.span <|
    match e with
    | .literal _ value => pure value.value
    | .ident name => lookup name
    | .group _ inner => Expr.eval host n inner
    | .array _ elements => do
      let items ← Expr.evalAll host n elements
      let id ← allocate (·.addArray items.toArray)
      return .array id
    | .unary _ op operand => do
      let v ← Expr.eval host n operand
      onHeap (·.unary op v)
    | .stepThenTake _ op operand => do
      let (_, new) ← Expr.step host n op operand
      return .number new
    | .takeThenStep _ op operand => do
      let (old, _) ← Expr.step host n op operand
      return .number old
    | .binary _ op left right => do
      let a ← Expr.eval host n left
      let b ← Expr.eval host n right
      onHeap (·.binary op a b)
    | .logical _ op left right => do
      let a ← Expr.eval host n left
      match shortCircuit? (← get).heap op a with
      | some v => return v
      | none =>
        let b ← Expr.eval host n right
        return afterRight (← get).heap op b
    | .ternary _ condition yes no => do
      let v ← Expr.eval host n condition
      if (← get).heap.toBool v then Expr.eval host n yes else Expr.eval host n no
    | .assign _ target value => do
      let v ← Expr.eval host n value
      Expr.store host n target v
      return v
    | .index _ target position => do
      let t ← Expr.eval host n target
      let i ← Expr.eval host n position
      onHeap (·.indexGet t i)
    | .field _ target name => do
      let t ← Expr.eval host n target
      locating name.span (onHeap (·.fieldGet t name.text))
    | .call _ callee args => do
      let f ← Expr.eval host n callee
      let values ← Expr.evalAll host n args
      if f.kind.isCallable then callValue host n f values
      else fault { cause := .notCallable f.kind, span := some callee.span }

/-- The values of a list of expressions. -/
def Expr.evalAll (host : Host) : Nat → List Expr → Run (List Value)
  | 0, _ => stop .outOfFuel
  | _ + 1, [] => pure []
  | n + 1, e :: rest => do
    let v ← Expr.eval host n e
    let vs ← Expr.evalAll host n rest
    return v :: vs

/-- Write a value to the place that an expression names. -/
def Expr.store (host : Host) : Nat → Expr → Value → Run Unit
  | 0, _, _ => stop .outOfFuel
  | n + 1, target, value =>
    match target with
    | .ident name => assign name value
    | .index _ target position => do
      let t ← Expr.eval host n target
      let i ← Expr.eval host n position
      write (← onHeap (·.itemPlace t i)) value
    | .field _ target name => do
      let t ← Expr.eval host n target
      write (← locating name.span (onHeap fun _ => Heap.fieldPlace t name.text)) value
    | other => fault { cause := .invalidTarget, span := some other.span }

/-- Change the number at the place that an expression names by one: the number before and after.
The place is evaluated once to read and once more to write. -/
def Expr.step (host : Host) : Nat → StepOp → Expr → Run (Float × Float)
  | 0, _, _ => stop .outOfFuel
  | n + 1, op, target =>
    if target.isAssignable then do
      let v ← Expr.eval host n target
      let old ← onHeap (·.toNumber v)
      let new := old + op.delta
      Expr.store host n target (.number new)
      return (old, new)
    else fault FaultCause.invalidTarget

/-- Call a value. Calling a class creates an object. -/
def callValue (host : Host) : Nat → Value → List Value → Run Value
  | 0, _, _ => stop .outOfFuel
  | n + 1, callee, args =>
    match callee with
    | .function id => callFunction host n id args
    | .cls id => instantiate host n id args
    | v => fault (FaultCause.notCallable v.kind)

/-- Call a function. The body of a declared function is executed in a new scope inside the one it
was declared in, where the parameters are bound to the arguments. -/
def callFunction (host : Host) : Nat → FunctionId → List Value → Run Value
  | 0, _, _ => stop .outOfFuel
  | n + 1, id, args => do
    match (← get).heap.function id with
    | .native _ arity action =>
      checkArity arity args.length
      Native.call host action args
    | .user decl home =>
      checkArity decl.arity args.length
      let scope ← newScope home
      bindArguments scope decl.params args
      match ← within scope (deeper (Stmt.execAll host n decl.body)) with
      | .returned v => return v
      | .next => return .null

/-- Create an object of a class and run the constructor of the class on it. -/
def instantiate (host : Host) : Nat → ClassId → List Value → Run Value
  | 0, _, _ => stop .outOfFuel
  | n + 1, id, args => do
    let record := (← get).heap.classRecord id
    checkArity record.decl.arity args.length
    let object ← allocate (·.addObject ⟨record.name, .empty⟩)
    let bound ← bindClass host n id object
    match bound.constructor with
    | some constructor =>
      let _ ← callFunction host n constructor args
      return .object object
    | none => return .object object

/-- Give an object the fields and methods of a class, those of its superclass first. Each class of
the chain gets a scope of its own, inside the scope it was declared in, that binds `this` to the
object and, below a superclass, `base` and `super`. -/
def bindClass (host : Host) : Nat → ClassId → ObjectId → Run BoundClass
  | 0, _, _ => stop .outOfFuel
  | n + 1, id, object => do
    let record := (← get).heap.classRecord id
    let scope ← newScope record.home
    define scope "this" (.object object) false
    let inherited ← match record.superclass with
      | none => pure .empty
      | some parent =>
        let bound ← bindClass host n parent object
        bindInherited scope ((← get).heap.classRecord parent).name bound
        pure bound.methods
    within scope (initFields host n object record.decl.fields)
    let methods ← bindMethods object scope record.decl.methods inherited
    let constructor ← match record.decl.constructor with
      | some decl => some <$> allocate (·.addFunction (.user decl scope))
      | none => pure none
    return ⟨methods, constructor⟩

/-- Evaluate the first values of fields and write them to an object. -/
def initFields (host : Host) : Nat → ObjectId → List FieldDecl → Run Unit
  | 0, _, _ => stop .outOfFuel
  | _ + 1, _, [] => pure ()
  | n + 1, object, field :: rest => do
    let v ← Expr.eval host n field.value
    setField object field.name.text v
    initFields host n object rest

/-- Execute a statement. -/
def Stmt.exec (host : Host) : Nat → Stmt → Run Flow
  | 0, _ => stop .outOfFuel
  | n + 1, s =>
    match s with
    | .declare name value constant => do
      let v ← match value with
        | some e => Expr.eval host n e
        | none => pure .null
      define (← get).scope name.text v (!constant)
      return .next
    | .function decl => do
      declareFunction decl
      return .next
    | .classDecl decl => do
      declareClass decl
      return .next
    | .ret span value => do
      if (← get).depth = 0 then fault { cause := .strayReturn, span := some span }
      else
        let v ← match value with
          | some e => Expr.eval host n e
          | none => pure .null
        return .returned v
    | .expr e => do
      let _ ← Expr.eval host n e
      return .next
    | .block body => do
      let scope ← newScope (← get).scope
      within scope (Stmt.execAll host n body)
    | .branch condition yes no => do
      let v ← Expr.eval host n condition
      if (← get).heap.toBool v then Stmt.exec host n yes
      else match no with
        | some no => Stmt.exec host n no
        | none => return .next
    | .loop condition body => Stmt.execLoop host n condition body

/-- Execute statements in turn, up to the first that returns. -/
def Stmt.execAll (host : Host) : Nat → List Stmt → Run Flow
  | 0, _ => stop .outOfFuel
  | _ + 1, [] => pure .next
  | n + 1, s :: rest => do
    match ← Stmt.exec host n s with
    | .returned v => return .returned v
    | .next => Stmt.execAll host n rest

/-- Execute a body as long as a condition holds and the body does not return. -/
def Stmt.execLoop (host : Host) : Nat → Expr → Stmt → Run Flow
  | 0, _, _ => stop .outOfFuel
  | n + 1, condition, body => do
    let v ← Expr.eval host n condition
    if (← get).heap.toBool v then
      match ← Stmt.exec host n body with
      | .returned v => return .returned v
      | .next => Stmt.execLoop host n condition body
    else return .next

end

/-- Execute the statements of a program or of an interactive line. An interactive line shows the
values of its expressions, except null. -/
def interpret (host : Host) (fuel : Nat) (mode : Mode) : List Stmt → Run Unit
  | [] => pure ()
  | s :: rest => do
    match mode, s with
    | .interactive, .expr e =>
      let v ← Expr.eval host fuel e
      if !v.isNull then print ((← get).heap.text v ++ "\n")
    | _, s =>
      let _ ← Stmt.exec host fuel s
    interpret host fuel mode rest

end Scriptlet
