import Scriptlet.Span

/-!
# Diagnostics

A diagnostic is a problem as it is shown to people: a code, a message, and what is known of the
place. Scanning, reading and running each have their own type of problem and turn it into a
diagnostic when it is reported.
-/

namespace Scriptlet

/-- The step that found a problem. -/
inductive Phase where
  | scanning
  | reading
  | running
deriving DecidableEq, Repr

/-- The classes of problems. -/
inductive Code where
  | unterminatedText
  | unexpectedCharacter
  | malformedNumber
  | unexpectedToken
  | expectedExpression
  | undefinedName
  | argumentCount
  | notCallable
  | operandKind
  | notIndexable
  | noSuchField
  | indexRange
  | assignmentTarget
  | divisionByZero
  | assignmentToConstant
  | notAClass
  | strayReturn
  | readOnly
  | other
deriving DecidableEq, Repr

namespace Code

/-- All codes, in the order of their written forms. -/
def all : List Code :=
  [unterminatedText, unexpectedCharacter, malformedNumber, unexpectedToken, expectedExpression,
    undefinedName, argumentCount, notCallable, operandKind, notIndexable, noSuchField, indexRange,
    assignmentTarget, divisionByZero, assignmentToConstant, notAClass, strayReturn, readOnly, other]

/-- The written form: the first digit tells the phase. -/
def text : Code → String
  | unterminatedText => "E0001"
  | unexpectedCharacter => "E0002"
  | malformedNumber => "E0003"
  | unexpectedToken => "E1001"
  | expectedExpression => "E1002"
  | undefinedName => "E6001"
  | argumentCount => "E6002"
  | notCallable => "E6003"
  | operandKind => "E6004"
  | notIndexable => "E6005"
  | noSuchField => "E6006"
  | indexRange => "E6007"
  | assignmentTarget => "E6008"
  | divisionByZero => "E6009"
  | assignmentToConstant => "E6010"
  | notAClass => "E6011"
  | strayReturn => "E6012"
  | readOnly => "E6013"
  | other => "E6099"

def phase : Code → Phase
  | unterminatedText | unexpectedCharacter | malformedNumber => .scanning
  | unexpectedToken | expectedExpression => .reading
  | _ => .running

/-- The code with a written form. -/
def ofText? (s : String) : Option Code := all.find? (·.text == s)

/-- No two codes share a written form. -/
@[simp] theorem ofText?_text (c : Code) : ofText? c.text = some c := by
  cases c <;> decide

end Code

/-- A problem as it is reported. -/
structure Diagnostic where
  code : Code
  message : String
  span : Option Span := none
  line : Option Nat := none
  notes : List String := []
deriving DecidableEq, Repr

/-- The plain form of a diagnostic, without any quoted text. -/
def Diagnostic.text (d : Diagnostic) : String :=
  let place := match d.line with
    | some n => " (line " ++ toString n ++ ")"
    | none => ""
  let notes := d.notes.map ("\n  = note: " ++ ·)
  "error [" ++ d.code.text ++ "]: " ++ d.message ++ place ++ String.join notes

end Scriptlet
