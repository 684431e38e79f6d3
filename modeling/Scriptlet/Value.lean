import Scriptlet.Tree

/-!
# Values

The values that a program computes with. Arrays, functions, classes and objects live in a heap and
are held by handles: copying a value copies the handle, so the copies share what it refers to, and
two such values are equal exactly if the handles are.
-/

namespace Scriptlet

structure ArrayId where
  index : Nat
deriving DecidableEq, Repr

structure FunctionId where
  index : Nat
deriving DecidableEq, Repr

structure ClassId where
  index : Nat
deriving DecidableEq, Repr

structure ObjectId where
  index : Nat
deriving DecidableEq, Repr

inductive Value where
  | null
  | bool (value : Bool)
  | number (value : Float)
  | text (value : String)
  | array (id : ArrayId)
  | function (id : FunctionId)
  | cls (id : ClassId)
  | object (id : ObjectId)
deriving DecidableEq, Repr, Inhabited

/-- The kinds of values, by which messages name them. -/
inductive ValueKind where
  | null
  | bool
  | number
  | text
  | array
  | function
  | cls
  | object
deriving DecidableEq, Repr

namespace ValueKind

def all : List ValueKind := [null, bool, number, text, array, function, cls, object]

def name : ValueKind → String
  | null => "null"
  | bool => "bool"
  | number => "number"
  | text => "string"
  | array => "array"
  | function => "function"
  | cls => "class"
  | object => "instance"

/-- The kind with a name. -/
def ofName? (s : String) : Option ValueKind := all.find? (·.name == s)

/-- No two kinds share a name. -/
@[simp] theorem ofName?_name (k : ValueKind) : ofName? k.name = some k := by
  cases k <;> decide

/-- The kinds whose values have elements under numbers. -/
def isIndexed : ValueKind → Bool
  | text | array => true
  | _ => false

/-- The kinds whose values have fields under names. -/
def hasFields : ValueKind → Bool
  | text | object => true
  | _ => false

/-- The kinds whose values can be called. -/
def isCallable : ValueKind → Bool
  | function | cls => true
  | _ => false

end ValueKind

namespace Value

def kind : Value → ValueKind
  | null => .null
  | bool _ => .bool
  | number _ => .number
  | text _ => .text
  | array _ => .array
  | function _ => .function
  | cls _ => .cls
  | object _ => .object

def isNull : Value → Bool
  | null => true
  | _ => false

/-- Equality as programs see it: values of different kinds differ, numbers compare as numbers, and
what lives in the heap is equal only to itself. -/
def same : Value → Value → Bool
  | null, null => true
  | bool a, bool b => a == b
  | number a, number b => a == b
  | text a, text b => a == b
  | array a, array b => a == b
  | function a, function b => a == b
  | cls a, cls b => a == b
  | object a, object b => a == b
  | _, _ => false

end Value

/-- The value of a constant. -/
def Constant.value : Constant → Value
  | null => .null
  | bool b => .bool b
  | number x => .number x
  | text s => .text s

end Scriptlet
