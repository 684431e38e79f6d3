import Scriptlet.Reader.Stream
import Scriptlet.Reader.Error
import Scriptlet.Tree

/-!
# Reading expressions

Expressions are read by descent along the precedence ladder: the choice `? :`, the infix operators
by their levels, the signs, the steps, and the primaries with their chains of fields, indices and
calls. A production takes the stream at its first token and leaves it after its last one; if it
fails, the stream stays at the token that does not fit.

Every production counts down a bound on the nesting, so that reading ends on every stream.
`nestingBound` is enough for every expression that the tokens of a stream can form.
-/

namespace Scriptlet

/-- Reading from a stream. -/
abbrev Reading := EStateM ReadError Stream

namespace Reading

/-- The token under the position. -/
@[inline]
def here : Reading Token := fun s => .ok s.here s

/-- The kind of the token under the position. -/
@[inline]
def kind : Reading TokenKind := fun s => .ok s.kind s

/-- Move past the token under the position, and give it. -/
@[inline]
def next : Reading Token := fun s => .ok s.here s.advance

/-- Fail at the token under the position. -/
@[inline]
def fail {α : Type} (expected : Expectation) : Reading α :=
  fun s => .error (.atToken expected s.here) s

/-- Move past a token of a kind, or fail. -/
@[inline]
def expect (kind : TokenKind) (expected : Expectation) : Reading Token :=
  fun s => if s.kind = kind then next s else fail expected s

/-- Move past a token of a kind if it is there. -/
@[inline]
def eat (kind : TokenKind) : Reading Bool :=
  fun s => if s.kind = kind then .ok true s.advance else .ok false s

end Reading

open Reading

mutual

/-- An expression: an infix expression, or a choice between two expressions. -/
def Expr.read : Nat → Reading Expr
  | 0 => fail .lessNesting
  | n + 1 => do
    let condition ← Expr.readLevel n 0
    if ← eat .question then
      let yes ← Expr.read n
      let _ ← expect .colon .ternaryColon
      let no ← Expr.read n
      return .ternary (condition.span.merge no.span) condition yes no
    else
      return condition

/-- The operands and operators of one level of the ladder and all higher ones. -/
def Expr.readLevel : Nat → Nat → Reading Expr
  | 0, _ => fail .lessNesting
  | n + 1, level => do
    if level < Infix.levels then
      let left ← Expr.readLevel n (level + 1)
      Expr.readLevelRest n level left
    else
      Expr.readSigned n

/-- The operators of one level that follow a left operand. -/
def Expr.readLevelRest : Nat → Nat → Expr → Reading Expr
  | 0, _, _ => fail .lessNesting
  | n + 1, level, left => do
    match Infix.at? level (← kind) with
    | some op =>
      let _ ← next
      let right ← Expr.readLevel n (level + 1)
      Expr.readLevelRest n level (.infixed op left right)
    | none => return left

/-- An operand with any number of signs before it. -/
def Expr.readSigned : Nat → Reading Expr
  | 0 => fail .lessNesting
  | n + 1 => do
    match UnaryOp.ofToken? (← kind) with
    | some op =>
      let sign ← next
      let operand ← Expr.readSigned n
      return .unary (sign.span.merge operand.span) op operand
    | none => Expr.readStepped n

/-- An operand with at most one step before it. -/
def Expr.readStepped : Nat → Reading Expr
  | 0 => fail .lessNesting
  | n + 1 => do
    match StepOp.ofToken? (← kind) with
    | some op =>
      let step ← next
      let operand ← Expr.readOperand n
      return .stepThenTake (step.span.merge operand.span) op operand
    | none => Expr.readOperand n

/-- A primary with at most one step after it. -/
def Expr.readOperand : Nat → Reading Expr
  | 0 => fail .lessNesting
  | n + 1 => do
    let operand ← Expr.readPrimary n
    match StepOp.ofToken? (← kind) with
    | some op =>
      let step ← next
      return .takeThenStep (operand.span.merge step.span) op operand
    | none => return operand

/-- A literal, an array, a group, or a name with what follows it. -/
def Expr.readPrimary : Nat → Reading Expr
  | 0 => fail .lessNesting
  | n + 1 => do
    let first ← here
    match first.kind with
    | .numberLiteral | .textLiteral =>
      match first.literal with
      | some value =>
        let _ ← next
        return .literal first.span value.constant
      | none => fail .literalValue
    | .kwTrue =>
      let _ ← next
      return .literal first.span (.bool true)
    | .kwFalse =>
      let _ ← next
      return .literal first.span (.bool false)
    | .kwNull =>
      let _ ← next
      return .literal first.span .null
    | .leftBracket =>
      let _ ← next
      let (elements, close) ← Expr.readElements n
      return .array (first.span.merge close) elements
    | .leftParen =>
      let _ ← next
      let inner ← Expr.read n
      let close ← expect .rightParen .closedGroup
      return .group (first.span.merge close.span) inner
    | .identifier =>
      let _ ← next
      Expr.readChain n (.ident first.name)
    | _ => fail .expression

/-- The elements of an array up to its closing bracket, whose span is given too. A comma after an
element may be left out. -/
def Expr.readElements : Nat → Reading (List Expr × Span)
  | 0 => fail .lessNesting
  | n + 1 => do
    match ← kind with
    | .rightBracket =>
      let close ← next
      return ([], close.span)
    | .eof => fail .closedArray
    | _ =>
      let element ← Expr.read n
      let _ ← eat .comma
      let (rest, close) ← Expr.readElements n
      return (element :: rest, close)

/-- What follows a name: fields, indices and calls in any order, and at most one assignment, which
ends the chain. A compound assignment repeats its target as the left operand. -/
def Expr.readChain : Nat → Expr → Reading Expr
  | 0, _ => fail .lessNesting
  | n + 1, target => do
    let kind ← kind
    match kind with
    | .equal =>
      let _ ← next
      let value ← Expr.read n
      return .assigned target value
    | .dot =>
      let _ ← next
      let field ← expect .identifier .fieldName
      Expr.readChain n (.field (target.span.merge field.span) target field.name)
    | .leftBracket =>
      let _ ← next
      let position ← Expr.read n
      let close ← expect .rightBracket .closedIndex
      Expr.readChain n (.index (target.span.merge close.span) target position)
    | .leftParen =>
      let _ ← next
      let (args, close) ← Expr.readArguments n
      Expr.readChain n (.call (target.span.merge close) target args)
    | _ =>
      match BinaryOp.ofCompound? kind with
      | some op =>
        let _ ← next
        let value ← Expr.read n
        let combined := .binary (target.span.merge value.span) op target value
        return .assigned target combined
      | none => return target

/-- The arguments of a call up to the closing parenthesis, whose span is given too. -/
def Expr.readArguments : Nat → Reading (List Expr × Span)
  | 0 => fail .lessNesting
  | n + 1 => do
    if (← kind) = .rightParen then
      let close ← next
      return ([], close.span)
    else
      Expr.readArgumentsRest n

/-- One argument and those after it. -/
def Expr.readArgumentsRest : Nat → Reading (List Expr × Span)
  | 0 => fail .lessNesting
  | n + 1 => do
    let arg ← Expr.read n
    if ← eat .comma then
      let (rest, close) ← Expr.readArgumentsRest n
      return (arg :: rest, close)
    else
      let close ← expect .rightParen .closedArguments
      return ([arg], close.span)

end

/-- A bound on the nesting that suffices for the tokens of a stream: between two tokens at most
sixteen productions start. -/
def Stream.nestingBound (s : Stream) : Nat := 32 * (s.ahead.length + 2)

end Scriptlet
