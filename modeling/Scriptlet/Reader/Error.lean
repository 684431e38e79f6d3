import Scriptlet.Token
import Scriptlet.Diagnostic

/-!
# Problems found while reading

Reading a declaration stops at the first token that does not fit. The problem names what was
expected there and the token that was found.
-/

namespace Scriptlet

/-- What the reader expected. -/
inductive Expectation where
  | expression
  | literalValue
  | closedGroup
  | closedArray
  | closedIndex
  | closedArguments
  | fieldName
  | ternaryColon
  | variableName
  | constantValue
  | declarationEnd
  | functionName
  | openParameters
  | parameterName
  | closedParameters
  | openBody
  | className
  | superclassName
  | openClass
  | memberName
  | memberRest
  | fieldEnd
  | closedClass
  | closedBlock
  | openBranchCondition
  | closedBranchCondition
  | openLoopCondition
  | closedLoopCondition
  | returnEnd
  | expressionEnd
  /-- Fewer levels of nesting than the bound handed to the reader allows. -/
  | lessNesting
deriving DecidableEq, Repr

namespace Expectation

def message : Expectation → String
  | expression => "expected expression"
  | literalValue => "malformed literal"
  | closedGroup => "expected `)` after expression"
  | closedArray => "expected `]` to close array literal"
  | closedIndex => "expected `]` after index"
  | closedArguments => "expected `)` after arguments"
  | fieldName => "expected field name after `.`"
  | ternaryColon => "expected `:` after the true branch of `?`"
  | variableName => "expected variable name"
  | constantValue => "expected `=` after constant name, constants need an initializer"
  | declarationEnd => "expected `;` after variable declaration"
  | functionName => "expected function name"
  | openParameters => "expected `(` after function name"
  | parameterName => "expected parameter name"
  | closedParameters => "expected `)` after parameters"
  | openBody => "expected `\x7b` before function body"
  | className => "expected class name"
  | superclassName => "expected superclass name after `:`"
  | openClass => "expected `\x7b` before class body"
  | memberName => "expected class member name"
  | memberRest => "expected `=` or `(` after class member name"
  | fieldEnd => "expected `;` after field default"
  | closedClass => "expected `\x7d` after class body"
  | closedBlock => "expected `\x7d` after block"
  | openBranchCondition => "expected `(` after `if`"
  | closedBranchCondition => "expected `)` after if condition"
  | openLoopCondition => "expected `(` after `while`"
  | closedLoopCondition => "expected `)` after while condition"
  | returnEnd => "expected `;` after return value"
  | expressionEnd => "expected `;` after expression"
  | lessNesting => "expected less nesting"

def code : Expectation → Code
  | expression => .expectedExpression
  | _ => .unexpectedToken

end Expectation

/-- A token that does not fit. -/
structure ReadError where
  expected : Expectation
  found : TokenKind
  span : Span
  line : Nat
deriving DecidableEq, Repr

namespace ReadError

/-- The problem that `token` stands where something else was expected. -/
def atToken (expected : Expectation) (token : Token) : ReadError :=
  ⟨expected, token.kind, token.span, token.line⟩

def code (e : ReadError) : Code := e.expected.code

/-- What was expected, without what was found. -/
def message (e : ReadError) : String := e.expected.message

/-- What was expected and what was found. -/
def fullMessage (e : ReadError) : String := e.message ++ ", found `" ++ e.found.friendly ++ "`"

/-- The one-line form. -/
def text (e : ReadError) : String := "line " ++ toString e.line ++ ": " ++ e.fullMessage

def diagnostic (e : ReadError) : Diagnostic :=
  ⟨e.code, e.fullMessage, some e.span, some e.line, []⟩

end ReadError
end Scriptlet
