import Scriptlet.Machine

/-!
# Native functions

Functions that the program does not declare: those of the standard library, and those that a host
registers.

Hosts are pure. A host function gets its arguments and gives a value: it sees the heap they lie in
and nothing else of the machine, answers the same whenever it sees the same, and the new array that
it may answer with is all it leaves behind. It keeps no state of its own, writes to nothing that
exists, and neither prints nor reads. This is the contract of native functions that hosts have to
keep, and the type `Host` admits no others.
-/

namespace Scriptlet

/-- What a host function answers. -/
inductive Reply where
  | value (v : Value)
  /-- A new array with these elements. -/
  | array (items : List Value)

/-- What a pure host does for a key: it gets the arguments and the heap. -/
abbrev Host := String → List Value → Heap → Except Fault Reply

namespace Host

/-- The host that registers nothing. -/
def none : Host := fun _ _ _ => .ok (.value .null)

end Host

namespace Native

/-- Write the text of the first argument. -/
def print (args : List Value) : Run Unit := fun m =>
  match args with
  | v :: _ => .ok () { m with console := m.console.print (m.heap.text v) }
  | [] => .ok () m

/-- The next input line, or null if there is none. -/
def readLine : Run Value := fun m =>
  match m.console.readLine with
  | (.line text, console) => .ok (.text text) { m with console }
  | (.finished, console) => .ok .null { m with console }
  | (.unknown, console) => .error .awaitingInput { m with console }

/-- The time that a reading of the clock shows. Before 1970 it shows none. -/
def time (seconds : Int) : Except Fault Value :=
  match seconds with
  | .ofNat n => .ok (.number (Number.ofNat n))
  | .negSucc _ =>
    .error (FaultCause.custom
      "system clock is before the Unix epoch: second time provided was later than self")

/-- Read the clock. -/
def epoch : Run Value := do
  let seconds ← Run.readClock
  Run.onHeap fun _ => time seconds

/-- The character with a code point. Surrogates and numbers beyond the last code point are none. -/
def character? (code : Int) : Option Char :=
  match code with
  | .ofNat n => if h : n.isValidChar then some (Char.ofNatAux n h) else none
  | .negSucc _ => none

/-- The text of one character. The fraction of the code point does not count. -/
def character (h : Heap) (args : List Value) : Except Fault Value := do
  let x ← match args with
    | v :: _ => h.toNumber v
    | [] => .ok 0.0
  let code := Number.dropFraction x
  let inside := match Number.view code with
    | .finite .. => character? (Number.whole code)
    | _ => none
  match inside with
  | some c => return .text c.toString
  | none => .error (FaultCause.custom (Number.text code ++ " is not a valid character code"))

/-- Call a native function with as many arguments as it takes. -/
def call (host : Host) (action : NativeAction) (args : List Value) : Run Value :=
  match action with
  | .print => do
    print args
    return .null
  | .readLine => do
    print args
    readLine
  | .clock => epoch
  | .character => Run.onHeap (character · args)
  | .nothing => pure .null
  | .host key => do
    match ← Run.onHeap (host key args) with
    | .value v => return v
    | .array items =>
      let id ← Run.allocate (·.addArray items.toArray)
      return .array id

end Native

/-- A native function before it is registered. -/
structure NativeDecl where
  name : String
  arity : Nat
  action : NativeAction
deriving DecidableEq, Repr

/-- The functions that every program can use. -/
def standardLibrary : List NativeDecl :=
  [⟨"print", 1, .print⟩, ⟨"readline", 1, .readLine⟩, ⟨"epoch", 0, .clock⟩,
    ⟨"int_to_char", 1, .character⟩]

namespace Machine

/-- Bind a native function to its name outside all scopes. -/
def register (m : Machine) (decl : NativeDecl) : Machine :=
  let (id, heap) := m.heap.addFunction (.native decl.name decl.arity decl.action)
  { m with
    heap
    scopes := m.scopes.define globals decl.name (.function id) true }

/-- Register functions one after the other; of two with one name the later stays. -/
def registerAll (m : Machine) (decls : List NativeDecl) : Machine := decls.foldl register m

/-- The machine at the start of a session with the standard library. -/
def start (console : Console) (clock : Clock) : Machine :=
  (initial console clock).registerAll standardLibrary

end Machine
end Scriptlet
