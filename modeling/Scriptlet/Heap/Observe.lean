import Scriptlet.Heap

/-!
# Observations

What can be seen of a value from outside, as a finite tree: handles are followed, so two heaps that
lay the same structure out differently give the same observation. An array or object that contains
itself is cut where it repeats, and a structure nested too deeply is cut at a fixed depth.
-/

namespace Scriptlet

/-- What can be seen of a value. -/
inductive Observed where
  | null
  | bool (value : Bool)
  | number (value : Float)
  | text (value : String)
  | array (items : List Observed)
  | function (name : String) (native : Bool) (arity : Nat) (params : Option (List String))
  | cls (name : String) (superclass : Option String) (arity : Nat)
      (params : Option (List String))
  | object (className : String) (fields : List (String × Observed))
  /-- The array or object that stands at this place on the path, the outermost being zero. -/
  | cycle (place : Nat)
  /-- An array or object below the depth at which observing stops. -/
  | deep

/-- Arrays and objects: what an observation can be inside of. -/
inductive Holder where
  | array (id : ArrayId)
  | object (id : ObjectId)
deriving DecidableEq, Repr

/-- The depth at which observing stops. -/
def observationDepth : Nat := 24

namespace Heap

/-- The observation of a value inside the holders of `path`, the outermost first; `fuel` levels of
holders may follow. -/
def observeWithin (h : Heap) : Nat → List Holder → Value → Observed
  | _, _, .null => .null
  | _, _, .bool b => .bool b
  | _, _, .number x => .number x
  | _, _, .text s => .text s
  | _, _, .function id =>
    let f := h.function id
    .function f.name f.isNative f.arity f.params?
  | _, _, .cls id =>
    let c := h.classRecord id
    .cls c.name (c.superclass.map fun parent => (h.classRecord parent).name) c.decl.arity c.params?
  | fuel, path, .array id =>
    match path.idxOf? (.array id) with
    | some place => .cycle place
    | none =>
      match fuel with
      | 0 => .deep
      | fuel + 1 =>
        .array ((h.array id).toList.map (h.observeWithin fuel (path ++ [.array id])))
  | fuel, path, .object id =>
    match path.idxOf? (.object id) with
    | some place => .cycle place
    | none =>
      match fuel with
      | 0 => .deep
      | fuel + 1 =>
        let o := h.object id
        .object o.className
          (o.fields.sorted.map fun (name, v) =>
            (name, h.observeWithin fuel (path ++ [.object id]) v))

/-- What can be seen of a value. -/
def observe (h : Heap) (v : Value) : Observed := h.observeWithin observationDepth [] v

end Heap
end Scriptlet
