import Scriptlet.Heap
import Scriptlet.Number.Text
import Scriptlet.Text.Blank

/-!
# Operations on values

How values count as numbers and as truth values, and what the operators compute on operands that are
already evaluated.
-/

namespace Scriptlet.Heap

/-- A value as a number: a text counts as the number it writes, an array as its length. -/
def toNumber (h : Heap) : Value → Except Fault Float
  | .null => .ok 0.0
  | .bool b => .ok (if b then 1.0 else 0.0)
  | .number x => .ok x
  | .text s =>
    match Number.read? (Text.trim s) with
    | some x => .ok x
    | none => .error (FaultCause.notANumber ("string \"" ++ s ++ "\""))
  | .array id => .ok (Number.ofNat (h.array id).size)
  | v => .error (FaultCause.notANumber v.kind.name)

/-- A value as a truth value: null, zero and what is empty are false. -/
def toBool (h : Heap) : Value → Bool
  | .null => false
  | .bool b => b
  | .number x => x != 0.0
  | .text s => !s.isEmpty
  | .array id => !(h.array id).isEmpty
  | _ => true

/-- Two texts are joined, two numbers added; nothing else can be added. -/
def add (left right : Value) : Except Fault Value :=
  match left, right with
  | .text a, .text b => .ok (.text (a ++ b))
  | .number a, .number b => .ok (.number (a + b))
  | _, _ => .error (FaultCause.operandKinds .add left.kind right.kind)

/-- Two numbers compared. -/
def compare (h : Heap) (left right : Value) (test : Float → Float → Bool) : Except Fault Value := do
  let a ← h.toNumber left
  let b ← h.toNumber right
  return .bool (test a b)

/-- Two numbers combined bit by bit, as integers of 64 bits. -/
def bitwise (h : Heap) (left right : Value) (op : Int64 → Int64 → Int64) : Except Fault Value := do
  let a ← h.toNumber left
  let b ← h.toNumber right
  let bits := op (.ofInt (Number.whole a)) (.ofInt (Number.whole b))
  return .number (Number.ofInt bits.toInt)

/-- What a binary operator computes. -/
def binary (h : Heap) (op : BinaryOp) (left right : Value) : Except Fault Value :=
  match op with
  | .add => add left right
  | .sub => do
    let a ← h.toNumber left
    let b ← h.toNumber right
    return .number (a - b)
  | .mul => do
    let a ← h.toNumber left
    let b ← h.toNumber right
    return .number (a * b)
  | .div => do
    let divisor ← h.toNumber right
    if divisor == 0.0 then .error FaultCause.divisionByZero
    else
      let dividend ← h.toNumber left
      return .number (dividend / divisor)
  | .bitOr => h.bitwise left right (· ||| ·)
  | .bitAnd => h.bitwise left right (· &&& ·)
  | .bitXor => h.bitwise left right (· ^^^ ·)
  | .eq => .ok (.bool (left.same right))
  | .ne => .ok (.bool (!left.same right))
  | .lt => h.compare left right (fun a b => a < b)
  | .le => h.compare left right (fun a b => a ≤ b)
  | .gt => h.compare left right (fun a b => b < a)
  | .ge => h.compare left right (fun a b => b ≤ a)

/-- What a unary operator computes. -/
def unary (h : Heap) (op : UnaryOp) (operand : Value) : Except Fault Value :=
  match op with
  | .not => .ok (.bool (!h.toBool operand))
  | .neg => do
    let x ← h.toNumber operand
    return .number (-x)

end Scriptlet.Heap
