import Scriptlet.Value
import Scriptlet.Diagnostic
import Scriptlet.Lines

/-!
# Faults

A fault ends the run of a program. It has a cause, the place in the program where it arose, once
that is known, and notes.
-/

namespace Scriptlet

/-- Why a program cannot go on. -/
inductive FaultCause where
  | undefinedVariable (name : String)
  | assignmentToConstant (name : String)
  | invalidTarget
  | argumentCount (expected got : Nat)
  | notCallable (kind : ValueKind)
  | notAClass (name : String)
  | strayReturn
  | notIndexed (kind : ValueKind)
  | indexKind (kind : ValueKind)
  | indexRange (index : Int) (length : Nat)
  | noField (kind : ValueKind) (field : String)
  | readOnly (kind : ValueKind)
  | operandKinds (op : BinaryOp) (left right : ValueKind)
  | notANumber (found : String)
  | divisionByZero
  /-- Raised by a native function. -/
  | custom (message : String)
deriving DecidableEq, Repr

namespace FaultCause

def message : FaultCause → String
  | undefinedVariable name => "undefined variable: " ++ name
  | assignmentToConstant name => "cannot assign to constant: " ++ name
  | invalidTarget => "invalid assignment target"
  | argumentCount expected got =>
    "expected " ++ toString expected ++ " arguments, got " ++ toString got
  | notCallable kind => kind.name ++ " is not callable"
  | notAClass name => name ++ " is not a class"
  | strayReturn => "`return` outside of a function"
  | notIndexed kind => "cannot index " ++ kind.name
  | indexKind kind => "index must be a number, found " ++ kind.name
  | indexRange index length =>
    "index " ++ toString index ++ " out of bounds for length " ++ toString length
  | noField kind field => kind.name ++ " has no field `" ++ field ++ "`"
  | readOnly kind => "cannot write to read-only " ++ kind.name
  | operandKinds op left right =>
    "operator `" ++ op.symbol ++ "` cannot be applied to " ++ left.name ++ " and " ++ right.name
  | notANumber found => "cannot convert " ++ found ++ " to a number"
  | divisionByZero => "division by zero"
  | custom message => message

def code : FaultCause → Code
  | undefinedVariable _ => .undefinedName
  | argumentCount .. => .argumentCount
  | notCallable _ => .notCallable
  | operandKinds .. | notANumber _ => .operandKind
  | notIndexed _ | indexKind _ => .notIndexable
  | noField .. => .noSuchField
  | indexRange .. => .indexRange
  | invalidTarget => .assignmentTarget
  | divisionByZero => .divisionByZero
  | assignmentToConstant _ => .assignmentToConstant
  | notAClass _ => .notAClass
  | strayReturn => .strayReturn
  | readOnly _ => .readOnly
  | custom _ => .other

end FaultCause

/-- The end of a run. -/
structure Fault where
  cause : FaultCause
  span : Option Span := none
  notes : List String := []
deriving DecidableEq, Repr

namespace Fault

def message (f : Fault) : String := f.cause.message

def code (f : Fault) : Code := f.cause.code

/-- The fault at a place, whatever place it had. -/
def withSpan (f : Fault) (span : Span) : Fault := { f with span := some span }

/-- The fault at a place, unless it already has one: the innermost place is kept. -/
def orSpan (f : Fault) (span : Span) : Fault := { f with span := some (f.span.getD span) }

def withNote (f : Fault) (note : String) : Fault := { f with notes := f.notes ++ [note] }

/-- The line of a fault in the text of its program. -/
def line? (f : Fault) (text : String) : Option Nat := f.span.map (lineNumber text ·.start)

def diagnostic (f : Fault) : Diagnostic := ⟨f.code, f.message, f.span, none, f.notes⟩

/-- A fault that has a place keeps it. -/
theorem orSpan_eq_self {f : Fault} {span : Span} (located : f.span = some span)
    (other : Span) : f.orSpan other = f := by
  obtain ⟨cause, _, notes⟩ := f
  cases located
  rfl

@[simp] theorem orSpan_orSpan (f : Fault) (s t : Span) : (f.orSpan s).orSpan t = f.orSpan s := by
  simp [orSpan]

@[simp] theorem orSpan_withSpan (f : Fault) (s t : Span) :
    (f.withSpan s).orSpan t = f.withSpan s := by
  simp [orSpan, withSpan]

end Fault

instance : Coe FaultCause Fault := ⟨fun cause => { cause }⟩

end Scriptlet
