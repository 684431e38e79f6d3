import Scriptlet.Heap
import Scriptlet.Number.Text

/-!
# The text of values

`Heap.text` is what printing a value writes. Arrays may contain themselves, so the writer keeps the
arrays it is in the middle of; one of those, met again, is written `[...]`. An array met twice on
different paths is written in full both times.
-/

namespace Scriptlet

/-- A text that is being written: what there is of it, and the arrays that the writer is in the
middle of, the innermost first. -/
structure Draft where
  out : String
  seen : List ArrayId
deriving DecidableEq, Repr

namespace Draft

def put (d : Draft) (s : String) : Draft := { d with out := d.out ++ s }

def enter (d : Draft) (id : ArrayId) : Draft := { d with seen := id :: d.seen }

def leave (d : Draft) : Draft := { d with seen := d.seen.tail }

/-- Write values one after the other, with commas between them. -/
def putAll (write : Value → Draft → Option Draft) : List Value → Draft → Option Draft
  | [], d => some d
  | v :: rest, d => do
    let d ← write v d
    if rest.isEmpty then return d
    else putAll write rest (d.put ", ")

end Draft

namespace Heap

/-- The text of a value that is written in one word; an array is when it is met again. -/
def word (h : Heap) : Value → String
  | .null => "null"
  | .bool b => if b then "true" else "false"
  | .number x => Number.text x
  | .text s => s
  | .function id =>
    let function := h.function id
    (if function.isNative then "<native function " else "<function ") ++ function.name ++ ">"
  | .cls id => "<class " ++ (h.classRecord id).name ++ ">"
  | .object id => "<" ++ (h.object id).className ++ " instance>"
  | .array _ => "[...]"

/-- Write a value. The first argument is how deep arrays may nest; the writer fails if they nest
deeper. -/
def writeText (h : Heap) : Nat → Value → Draft → Option Draft
  | fuel, .array id, d =>
    if id ∈ d.seen then some (d.put (h.word (.array id)))
    else
      match fuel with
      | 0 => none
      | fuel + 1 => do
        let d ← Draft.putAll (h.writeText fuel) (h.array id).toList ((d.enter id).put "[")
        return (d.put "]").leave
  | _, v, d => some (d.put (h.word v))

/-- The text of a value. Arrays that contain something are in the heap, and the writer is never in
the middle of one of them twice; so it does not fail. -/
def text (h : Heap) (v : Value) : String :=
  match h.writeText (h.arrays.size + 1) v ⟨"", []⟩ with
  | some d => d.out
  | none => ""

/-- A value for people who look for mistakes: its kind and its text. -/
def inspect (h : Heap) : Value → String
  | .null => "Null"
  | .bool b => "Bool(" ++ (if b then "true" else "false") ++ ")"
  | .number x => "Number(" ++ Number.text x ++ ")"
  | .text s => "Str(" ++ Text.quoted s ++ ")"
  | v => v.kind.name ++ "(" ++ h.text v ++ ")"

/-- What lies in the heap behind a function, class or object. -/
def inspectRecord (h : Heap) : Value → Option String
  | .function id =>
    let f := h.function id
    some ("FunctionValue \x7b name: " ++ Text.quoted f.name ++ ", arity: " ++ toString f.arity ++
      ", native: " ++ (if f.isNative then "true" else "false") ++ " \x7d")
  | .cls id =>
    let c := h.classRecord id
    let superclass := match c.superclass with
      | some parent => "Some(" ++ Text.quoted (h.classRecord parent).name ++ ")"
      | none => "None"
    some ("ClassValue \x7b name: " ++ Text.quoted c.name ++ ", superclass: " ++ superclass ++
      " \x7d")
  | .object id =>
    let o := h.object id
    some ("InstanceValue \x7b class_name: " ++ Text.quoted o.className ++ ", fields: [" ++
      ", ".intercalate (o.fields.sortedKeys.map Text.quoted) ++ "] \x7d")
  | _ => none

/-- `inspect`, followed by what lies in the heap. -/
def inspectFully (h : Heap) (v : Value) : String :=
  match h.inspectRecord v with
  | some record => h.inspect v ++ " " ++ record
  | none => h.inspect v

end Heap
end Scriptlet
