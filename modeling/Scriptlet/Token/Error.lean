import Scriptlet.Diagnostic

/-!
# Problems found while scanning

Scanning never stops at a problem: it records it and goes on.
-/

namespace Scriptlet

/-- Why a piece of text is not a proper token. -/
inductive ScanCause where
  | unexpectedCharacter (c : Char)
  | unterminatedText
  | surplusPoint
  | malformedNumber (text : String)
deriving DecidableEq, Repr

namespace ScanCause

def message : ScanCause → String
  | unexpectedCharacter c => "unexpected character '" ++ c.toString ++ "'"
  | unterminatedText => "unterminated string literal"
  | surplusPoint => "multiple decimal points found in a number literal"
  | malformedNumber text => "failed to convert number literal (" ++ text ++ ") to a number"

def code : ScanCause → Code
  | unexpectedCharacter _ => .unexpectedCharacter
  | unterminatedText => .unterminatedText
  | surplusPoint | malformedNumber _ => .malformedNumber

/-- What a report adds to the message. -/
def notes : ScanCause → List String
  | unterminatedText => ["add a closing `\"`"]
  | _ => []

end ScanCause

/-- A problem with its place. -/
structure ScanError where
  cause : ScanCause
  span : Span
  /-- The line on which the problem was found, counted from one. -/
  line : Nat
deriving DecidableEq, Repr

namespace ScanError

def code (e : ScanError) : Code := e.cause.code

/-- The one-line form. -/
def text (e : ScanError) : String := "line " ++ toString e.line ++ ": " ++ e.cause.message

def diagnostic (e : ScanError) : Diagnostic :=
  ⟨e.code, e.cause.message, some e.span, some e.line, e.cause.notes⟩

end ScanError
end Scriptlet
