import Scriptlet.Span

/-!
# Tokens

A token is a classified piece of a text, with the place where it stands. The kind says what the
piece is; the value of a literal and the text of a name are kept beside it.
-/

namespace Scriptlet

/-- What a token is. -/
inductive TokenKind where
  | identifier
  | textLiteral
  | numberLiteral
  | kwTrue
  | kwFalse
  | kwNull
  | leftParen
  | rightParen
  | leftBracket
  | rightBracket
  | leftBrace
  | rightBrace
  | semicolon
  | colon
  | comma
  | dot
  | bang
  | equal
  | bangEqual
  | equalEqual
  | plus
  | minus
  | star
  | slash
  | plusPlus
  | minusMinus
  | pipe
  | ampersand
  | caret
  | plusEqual
  | minusEqual
  | starEqual
  | slashEqual
  | pipeEqual
  | ampersandEqual
  | caretEqual
  | less
  | greater
  | lessEqual
  | greaterEqual
  | pipePipe
  | ampersandAmpersand
  | question
  | questionQuestion
  | kwIf
  | kwElse
  | kwWhile
  | kwFunction
  | kwClass
  | kwVar
  | kwConst
  | kwReturn
  | comment
  | eof
deriving DecidableEq, Repr, Inhabited

namespace TokenKind

/-- All kinds, in the order of their indices. -/
def all : List TokenKind :=
  [identifier, textLiteral, numberLiteral, kwTrue, kwFalse, kwNull, leftParen, rightParen,
    leftBracket, rightBracket, leftBrace, rightBrace, semicolon, colon, comma, dot, bang, equal,
    bangEqual, equalEqual, plus, minus, star, slash, plusPlus, minusMinus, pipe, ampersand,
    caret, plusEqual, minusEqual, starEqual, slashEqual, pipeEqual, ampersandEqual, caretEqual,
    less, greater, lessEqual, greaterEqual, pipePipe, ampersandAmpersand, question,
    questionQuestion, kwIf, kwElse, kwWhile, kwFunction, kwClass, kwVar, kwConst, kwReturn,
    comment, eof]

/-- The place of a kind among all kinds. -/
def index (k : TokenKind) : Nat := k.ctorIdx

/-- The name under which a dump lists a kind. -/
def label : TokenKind → String
  | identifier => "Identifier"
  | textLiteral => "StringLiteral"
  | numberLiteral => "NumberLiteral"
  | kwTrue => "True"
  | kwFalse => "False"
  | kwNull => "Null"
  | leftParen => "LParen"
  | rightParen => "RParen"
  | leftBracket => "LBracket"
  | rightBracket => "RBracket"
  | leftBrace => "LBrace"
  | rightBrace => "RBrace"
  | semicolon => "Semicolon"
  | colon => "Colon"
  | comma => "Comma"
  | dot => "Dot"
  | bang => "Bang"
  | equal => "Equal"
  | bangEqual => "BangEqual"
  | equalEqual => "EqualEqual"
  | plus => "Plus"
  | minus => "Minus"
  | star => "Star"
  | slash => "Slash"
  | plusPlus => "PlusPlus"
  | minusMinus => "MinusMinus"
  | pipe => "Pipe"
  | ampersand => "Ampersand"
  | caret => "Caret"
  | plusEqual => "PlusEqual"
  | minusEqual => "MinusEqual"
  | starEqual => "StarEqual"
  | slashEqual => "SlashEqual"
  | pipeEqual => "PipeEqual"
  | ampersandEqual => "AmpersandEqual"
  | caretEqual => "CaretEqual"
  | less => "Less"
  | greater => "Greater"
  | lessEqual => "LessEqual"
  | greaterEqual => "GreaterEqual"
  | pipePipe => "PipePipe"
  | ampersandAmpersand => "AmpersandAmpersand"
  | question => "Question"
  | questionQuestion => "QuestionQuestion"
  | kwIf => "If"
  | kwElse => "Else"
  | kwWhile => "While"
  | kwFunction => "Function"
  | kwClass => "Class"
  | kwVar => "Var"
  | kwConst => "Const"
  | kwReturn => "Return"
  | comment => "Comment"
  | eof => "Eof"

/-- How a message names a kind: by its text where that is fixed. -/
def friendly : TokenKind → String
  | identifier => "identifier"
  | textLiteral => "string literal"
  | numberLiteral => "number literal"
  | kwTrue => "true"
  | kwFalse => "false"
  | kwNull => "null"
  | leftParen => "("
  | rightParen => ")"
  | leftBracket => "["
  | rightBracket => "]"
  | leftBrace => "\x7b"
  | rightBrace => "\x7d"
  | semicolon => ";"
  | colon => ":"
  | comma => ","
  | dot => "."
  | bang => "!"
  | equal => "="
  | bangEqual => "!="
  | equalEqual => "=="
  | plus => "+"
  | minus => "-"
  | star => "*"
  | slash => "/"
  | plusPlus => "++"
  | minusMinus => "--"
  | pipe => "|"
  | ampersand => "&"
  | caret => "^"
  | plusEqual => "+="
  | minusEqual => "-="
  | starEqual => "*="
  | slashEqual => "/="
  | pipeEqual => "|="
  | ampersandEqual => "&="
  | caretEqual => "^="
  | less => "<"
  | greater => ">"
  | lessEqual => "<="
  | greaterEqual => ">="
  | pipePipe => "||"
  | ampersandAmpersand => "&&"
  | question => "?"
  | questionQuestion => "??"
  | kwIf => "if"
  | kwElse => "else"
  | kwWhile => "while"
  | kwFunction => "function"
  | kwClass => "class"
  | kwVar => "var"
  | kwConst => "const"
  | kwReturn => "return"
  | comment => "comment"
  | eof => "end of file"

/-- The reserved words. -/
def keywords : List TokenKind :=
  [kwIf, kwElse, kwWhile, kwFunction, kwClass, kwVar, kwConst, kwReturn, kwTrue, kwFalse, kwNull]

def isKeyword (k : TokenKind) : Bool := keywords.contains k

/-- Kinds that stand between the tokens of a program without being part of it. -/
def isTrivia (k : TokenKind) : Bool := k == comment

/-- The kind with a given label. -/
def ofLabel? (s : String) : Option TokenKind := all.find? (·.label == s)

/-- The kind of a word: reserved words have their own, all others are identifiers. -/
def ofWord (word : String) : TokenKind := (keywords.find? (·.friendly == word)).getD identifier

/-- No two kinds share a label, so the label gives the kind back. -/
@[simp] theorem ofLabel?_label (k : TokenKind) : ofLabel? k.label = some k := by
  cases k <;> decide

end TokenKind

/-- The value of a literal token. -/
inductive Literal where
  | number (value : Float)
  | text (value : String)
deriving DecidableEq, Repr

/-- A classified piece of a text. -/
structure Token where
  kind : TokenKind
  /-- The piece itself, with its quotes if it is a text literal. -/
  lexeme : String
  /-- The line on which the token starts, counted from one. -/
  line : Nat
  literal : Option Literal := none
  span : Span
deriving DecidableEq, Repr

/-- The token that ends a text. -/
def Token.ending (line offset : Nat) : Token := ⟨.eof, "", line, none, .point offset⟩

instance : Inhabited Token := ⟨.ending 1 0⟩

end Scriptlet
