import Scriptlet.Fault
import Scriptlet.Scope
import Scriptlet.Number.Binary

/-!
# The heap

The heap holds the arrays, objects, functions and classes of a run, each kind in a list of its own
that only grows. Reading through a handle is total: a handle that nothing was allocated for reads as
something empty, which no run ever sees.
-/

namespace Scriptlet

/-- What a function of the host language does when it is called. -/
inductive NativeAction where
  /-- Write the text of the argument. -/
  | print
  /-- Write the text of the argument, then read a line. -/
  | readLine
  /-- The seconds since the beginning of 1970. -/
  | clock
  /-- The text of one character, given by its code point. -/
  | character
  /-- Nothing: the result is null. -/
  | nothing
  /-- What the host has registered under a key. -/
  | host (key : String)
deriving DecidableEq, Repr

/-- A function: one declared by the program, with the scope it was declared in, or a native one. -/
inductive Routine where
  | user (decl : FunctionDecl Stmt) (home : ScopeId)
  | native (name : String) (arity : Nat) (action : NativeAction)

instance : Inhabited Routine := ⟨.native "" 0 .nothing⟩

namespace Routine

def name : Routine → String
  | user decl _ => decl.name.text
  | native name _ _ => name

def arity : Routine → Nat
  | user decl _ => decl.arity
  | native _ arity _ => arity

def isNative : Routine → Bool
  | user .. => false
  | native .. => true

/-- The names of the parameters, if the program declares them. -/
def params? : Routine → Option (List String)
  | user decl _ => some (decl.params.map (·.text))
  | native .. => none

end Routine

/-- A class with the scope it was declared in and its superclass. -/
structure ClassRecord where
  decl : ClassDecl Stmt
  home : ScopeId
  superclass : Option ClassId

instance : Inhabited ClassRecord := ⟨⟨⟨"", .nowhere⟩, none, [], [], none⟩, ⟨0⟩, none⟩

namespace ClassRecord

def name (c : ClassRecord) : String := c.decl.name.text

/-- The names of the constructor's parameters, if there is a constructor. -/
def params? (c : ClassRecord) : Option (List String) :=
  c.decl.constructor.map (·.params.map (·.text))

end ClassRecord

/-- An object: the name of its class and its fields, methods among them. -/
structure ObjectRecord where
  className : String
  fields : Dict Value
deriving Inhabited

/-- A place in the heap that a program can write to. -/
inductive Place where
  | item (array : ArrayId) (at_ : Nat)
  | field (object : ObjectId) (name : String)
deriving DecidableEq, Repr

structure Heap where
  arrays : Array (Array Value)
  objects : Array ObjectRecord
  functions : Array Routine
  classes : Array ClassRecord

namespace Heap

def empty : Heap := ⟨#[], #[], #[], #[]⟩

/-! ## Allocation -/

def addArray (h : Heap) (items : Array Value) : ArrayId × Heap :=
  (⟨h.arrays.size⟩, { h with arrays := h.arrays.push items })

def addObject (h : Heap) (object : ObjectRecord) : ObjectId × Heap :=
  (⟨h.objects.size⟩, { h with objects := h.objects.push object })

def addFunction (h : Heap) (function : Routine) : FunctionId × Heap :=
  (⟨h.functions.size⟩, { h with functions := h.functions.push function })

def addClass (h : Heap) (record : ClassRecord) : ClassId × Heap :=
  (⟨h.classes.size⟩, { h with classes := h.classes.push record })

/-! ## Reading -/

def array (h : Heap) (id : ArrayId) : Array Value := h.arrays[id.index]?.getD #[]

def object (h : Heap) (id : ObjectId) : ObjectRecord := h.objects[id.index]?.getD default

def function (h : Heap) (id : FunctionId) : Routine := h.functions[id.index]?.getD default

def classRecord (h : Heap) (id : ClassId) : ClassRecord := h.classes[id.index]?.getD default

theorem function_addFunction (h : Heap) (r : Routine) (id : FunctionId) :
    (h.addFunction r).2.function id = if id = (h.addFunction r).1 then r else h.function id := by
  have key : id = (h.addFunction r).1 ↔ id.index = h.functions.size := by
    cases id
    simp [Heap.addFunction]
  by_cases new : id.index = h.functions.size
  · rw [if_pos (key.2 new)]
    simp [Heap.addFunction, Heap.function, new]
  · rw [if_neg fun same => new (key.1 same)]
    simp [Heap.addFunction, Heap.function, Array.getElem?_push, new]

theorem classRecord_addClass (h : Heap) (r : ClassRecord) (id : ClassId) :
    (h.addClass r).2.classRecord id = if id = (h.addClass r).1 then r else h.classRecord id := by
  have key : id = (h.addClass r).1 ↔ id.index = h.classes.size := by
    cases id
    simp [Heap.addClass]
  by_cases new : id.index = h.classes.size
  · rw [if_pos (key.2 new)]
    simp [Heap.addClass, Heap.classRecord, new]
  · rw [if_neg fun same => new (key.1 same)]
    simp [Heap.addClass, Heap.classRecord, Array.getElem?_push, new]

/-! ## Elements -/

/-- The length up to which writing an element makes an array grow: the 24th power of two. -/
def arrayLimit : Nat := 16777216

/-- Whether a write at a position is accepted: it either stays within the array or grows it no
further than the limit. -/
def acceptsWrite (size at_ : Nat) : Bool := at_ < size || at_ < arrayLimit

/-- An array after a write at a position; a gap between the end and the position is filled with
null. -/
def writeAt (items : Array Value) (at_ : Nat) (value : Value) : Array Value :=
  if at_ < items.size then items.setIfInBounds at_ value
  else (items ++ Array.replicate (at_ - items.size) Value.null).push value

theorem size_writeAt (items : Array Value) (at_ : Nat) (value : Value) :
    (writeAt items at_ value).size = max items.size (at_ + 1) := by
  by_cases h : at_ < items.size
  · rw [writeAt, if_pos h, Array.size_setIfInBounds]; omega
  · rw [writeAt, if_neg h, Array.size_push, Array.size_append, Array.size_replicate]; omega

/-- After a write the position holds the value, and every other position reads as before. -/
theorem getD_writeAt (items : Array Value) (at_ i : Nat) (value : Value) :
    (writeAt items at_ value)[i]?.getD .null =
      if i = at_ then value else items[i]?.getD .null := by
  by_cases h : at_ < items.size
  · rw [writeAt, if_pos h, Array.getElem?_setIfInBounds]
    by_cases hi : i = at_
    · simp [hi, h]
    · rw [if_neg (fun e => hi e.symm), if_neg hi]
  · have size : (items ++ Array.replicate (at_ - items.size) Value.null).size = at_ := by
      rw [Array.size_append, Array.size_replicate]; omega
    rw [writeAt, if_neg h, Array.getElem?_push, size]
    by_cases hi : i = at_
    · simp [hi]
    · rw [if_neg hi, if_neg hi, Array.getElem?_append]
      by_cases hs : i < items.size
      · rw [if_pos hs]
      · rw [if_neg hs, Array.getElem?_replicate, Array.getElem?_eq_none (by omega)]
        split <;> rfl

/-- The position that an index names: its integer part. -/
def position : Value → Except Fault Int
  | .number x => .ok (Number.whole x)
  | v => .error (FaultCause.indexKind v.kind)

/-- The number of elements of a value that has elements. -/
def length? (h : Heap) : Value → Option Nat
  | .text s => some s.length
  | .array id => some (h.array id).size
  | _ => none

/-- The element of `target` at `index`. Reading an array past its end gives null. -/
def indexGet (h : Heap) (target index : Value) : Except Fault Value :=
  match target with
  | .text s => do
    let i ← position index
    match i with
    | .ofNat n =>
      match s.toList[n]? with
      | some c => return .text c.toString
      | none => .error (FaultCause.indexRange i s.length)
    | .negSucc _ => .error (FaultCause.indexRange i s.length)
  | .array id => do
    let i ← position index
    match i with
    | .ofNat n => return (h.array id)[n]?.getD .null
    | .negSucc _ => .error (FaultCause.indexRange i (h.array id).size)
  | v => .error (FaultCause.notIndexed v.kind)

/-- Where an element of `target` is written. -/
def itemPlace (h : Heap) (target index : Value) : Except Fault Place :=
  match target with
  | .text _ => .error (FaultCause.readOnly .text)
  | .array id => do
    let i ← position index
    let size := (h.array id).size
    match i with
    | .ofNat n =>
      if acceptsWrite size n then return .item id n
      else
        .error { cause := .indexRange i size,
                 notes := ["arrays grow to at most " ++ toString arrayLimit ++ " elements"] }
    | .negSucc _ => .error (FaultCause.indexRange i size)
  | v => .error (FaultCause.notIndexed v.kind)

/-! ## Fields -/

/-- The field of `target` with a name. A text has one field, its length. -/
def fieldGet (h : Heap) (target : Value) (name : String) : Except Fault Value :=
  match target with
  | .text s =>
    if name = "length" then .ok (.number (Number.ofNat s.length))
    else .error (FaultCause.noField .text name)
  | .object id =>
    let object := h.object id
    match object.fields.get? name with
    | some value => .ok value
    | none =>
      .error { cause := .noField .object name,
               notes := ["`" ++ object.className ++ "` defines no field `" ++ name ++ "`"] }
  | v => .error (FaultCause.noField v.kind name)

/-- Where a field of `target` is written. -/
def fieldPlace (target : Value) (name : String) : Except Fault Place :=
  match target with
  | .text _ => .error (FaultCause.readOnly .text)
  | .object id => .ok (.field id name)
  | v => .error (FaultCause.noField v.kind name)

/-! ## Writing -/

/-- The heap after a write. -/
def write (h : Heap) (place : Place) (value : Value) : Heap :=
  match place with
  | .item id at_ => { h with arrays := h.arrays.modify id.index (writeAt · at_ value) }
  | .field id name =>
    { h with objects := h.objects.modify id.index fun object =>
      { object with fields := object.fields.insert name value } }

/-- The heap after writing an element. -/
def indexSet (h : Heap) (target index value : Value) : Except Fault Heap :=
  (h.itemPlace target index).map (h.write · value)

/-- The heap after writing a field. -/
def fieldSet (h : Heap) (target : Value) (name : String) (value : Value) : Except Fault Heap :=
  (fieldPlace target name).map (h.write · value)

end Heap
end Scriptlet
