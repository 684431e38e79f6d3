import Scriptlet.Operation
import Scriptlet.Heap.Text
import Scriptlet.Console
import Scriptlet.Clock

/-!
# The machine

The machine is the whole state of a run: heap, scopes, console and clock, the scope in which the
program currently stands, and the number of function bodies it is currently in. A step of a run takes the
machine and gives it back changed, together with a value, or with the reason why the run stops
there.
-/

namespace Scriptlet

structure Machine where
  heap : Heap
  scopes : Scopes Value
  console : Console
  /-- The scope in which the program stands. -/
  scope : ScopeId
  /-- How many bodies of declared functions are being executed. -/
  depth : Nat
  clock : Clock

/-- Why a run stops. -/
inductive Stop where
  | fault (fault : Fault)
  /-- The bound on the length of the run is used up. -/
  | outOfFuel
  /-- The program asks for an input line that is not known yet. -/
  | awaitingInput
  /-- The program asks for a reading of the clock that is not known yet. -/
  | awaitingTime
deriving DecidableEq, Repr

/-- Steps of a run. -/
abbrev Run := EStateM Stop Machine

namespace Machine

/-- The scope that encloses all others. -/
def globals : ScopeId := Scopes.rootId

/-- The machine before anything has run, without any names. -/
def initial (console : Console) (clock : Clock) : Machine :=
  ⟨.empty, .root, console, globals, 0, clock⟩

/-- What a name means outside all functions and blocks. -/
def global? (m : Machine) (name : String) : Option Value := m.scopes.get? globals name

end Machine

namespace Run

variable {α : Type}

@[inline]
def stop (why : Stop) : Run α := fun m => .error why m

/-- Stop with a fault. -/
@[inline]
def fault (f : Fault) : Run α := stop (.fault f)

/-- Compute something from the heap. -/
@[inline]
def onHeap (f : Heap → Except Fault α) : Run α := fun m =>
  match f m.heap with
  | .ok a => .ok a m
  | .error e => .error (.fault e) m

/-- Write to a place in the heap. -/
@[inline]
def write (place : Place) (value : Value) : Run Unit := fun m =>
  .ok () { m with heap := m.heap.write place value }

/-- Allocate in the heap. -/
@[inline]
def allocate (f : Heap → α × Heap) : Run α := fun m =>
  let (a, heap) := f m.heap
  .ok a { m with heap }

/-- Give the fault of a step a place, unless it has one. -/
@[inline]
def locating (span : Span) (r : Run α) : Run α := fun m =>
  match r m with
  | .error (.fault f) m => .error (.fault (f.orSpan span)) m
  | other => other

/-- A new scope inside another. -/
@[inline]
def newScope (parent : ScopeId) : Run ScopeId := fun m =>
  let (id, scopes) := m.scopes.child parent
  .ok id { m with scopes }

/-- Bind a name in a scope. -/
@[inline]
def define (id : ScopeId) (name : String) (value : Value) (writable : Bool) : Run Unit := fun m =>
  .ok () { m with scopes := m.scopes.define id name value writable }

/-- Take a step with another scope current. Whatever the step ends with, the scope that was current
before it is current again afterwards. -/
@[inline]
def within (scope : ScopeId) (r : Run α) : Run α := fun m =>
  let before := m.scope
  match r { m with scope } with
  | .ok a m => .ok a { m with scope := before }
  | .error e m => .error e { m with scope := before }

/-- Take a step inside one more function body. -/
@[inline]
def deeper (r : Run α) : Run α := fun m =>
  match r { m with depth := m.depth + 1 } with
  | .ok a m => .ok a { m with depth := m.depth - 1 }
  | .error e m => .error e { m with depth := m.depth - 1 }

/-- What a name means in the current scope. -/
@[inline]
def lookup (name : Name) : Run Value := fun m =>
  match m.scopes.get? m.scope name.text with
  | some v => .ok v m
  | none =>
    .error (.fault { cause := .undefinedVariable name.text, span := some name.span }) m

/-- The fault of an assignment that failed. -/
def assignFault (name : Name) (e : ScopeError) : Fault :=
  let cause := match e with
    | .undefined => .undefinedVariable name.text
    | .immutable => .assignmentToConstant name.text
  { cause, span := some name.span }

/-- Assign to a name, seen from the current scope. -/
@[inline]
def assign (name : Name) (value : Value) : Run Unit := fun m =>
  match m.scopes.target m.scope name.text with
  | .ok owner => .ok () { m with scopes := m.scopes.define owner name.text value true }
  | .error e => .error (.fault (assignFault name e)) m

/-- Write to the console. -/
@[inline]
def print (text : String) : Run Unit := fun m =>
  .ok () { m with console := m.console.print text }

/-- Take the next reading of the clock. -/
@[inline]
def readClock : Run Int := fun m =>
  match m.clock.read with
  | (some seconds, clock) => .ok seconds { m with clock }
  | (none, clock) => .error .awaitingTime { m with clock }

/-- The fault of a call with the wrong number of arguments. -/
def checkArity (expected got : Nat) : Run Unit :=
  if expected = got then pure () else fault (FaultCause.argumentCount expected got)

end Run
end Scriptlet
