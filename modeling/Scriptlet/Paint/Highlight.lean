import Scriptlet.Span

/-!
# Highlights

How a character of a program is shown. Keywords, literals, comments and brackets get their highlight
from the token they belong to, names from what they are bound to.
-/

namespace Scriptlet

inductive Highlight where
  | none
  | comment
  | variableName
  | accessor
  | functionName
  | constructorName
  | className
  | argument
  | this
  | base
  | super
  | called
  | kwVar
  | kwFunction
  | kwClass
  | kwIf
  | kwElse
  | kwWhile
  | kwReturn
  | textLiteral
  | numberLiteral
  | trueLiteral
  | falseLiteral
  | nullLiteral
  /-- One of the colours for pairs of brackets, by nesting depth. -/
  | bracket (colour : Fin 3)
deriving DecidableEq, Repr, Inhabited

namespace Highlight

/-- All highlights. -/
def all : List Highlight :=
  [none, comment, variableName, accessor, functionName, constructorName, className, argument, this,
    base, super, called, kwVar, kwFunction, kwClass, kwIf, kwElse, kwWhile, kwReturn, textLiteral,
    numberLiteral, trueLiteral, falseLiteral, nullLiteral, bracket 0, bracket 1, bracket 2]

/-- The colour of a pair of brackets inside `depth` others. -/
def ofDepth (depth : Nat) : Highlight := bracket (Fin.ofNat 3 depth)

def isBracket : Highlight → Bool
  | bracket _ => true
  | _ => false

/-- The name of a highlight. -/
def label : Highlight → String
  | none => "none"
  | comment => "comment"
  | variableName => "variable"
  | accessor => "accessor"
  | functionName => "function"
  | constructorName => "ctor"
  | className => "class"
  | argument => "argument"
  | this => "this"
  | base => "base"
  | super => "super"
  | called => "called"
  | kwVar => "kw-var"
  | kwFunction => "kw-function"
  | kwClass => "kw-class"
  | kwIf => "kw-if"
  | kwElse => "kw-else"
  | kwWhile => "kw-while"
  | kwReturn => "kw-return"
  | textLiteral => "string"
  | numberLiteral => "number"
  | trueLiteral => "true"
  | falseLiteral => "false"
  | nullLiteral => "null"
  | bracket colour => "bracket-" ++ toString colour.val

/-- The highlight with a name. -/
def ofLabel? (s : String) : Option Highlight := all.find? (·.label == s)

/-- No two highlights share a name. -/
@[simp] theorem ofLabel?_label (h : Highlight) : ofLabel? h.label = some h := by
  cases h with
  | bracket colour => revert colour; decide
  | _ => decide

end Highlight

/-- What a name is bound to, as far as the text of a program tells. -/
inductive Role where
  | variableName
  | functionName
  | className
  | argument
  | this
  | base
  | super
deriving DecidableEq, Repr

/-- How a name in a role is shown. -/
def Role.highlight : Role → Highlight
  | variableName => .variableName
  | functionName => .functionName
  | className => .className
  | argument => .argument
  | this => .this
  | base => .base
  | super => .super

/-- A decision to show the characters of a span in some way. -/
structure Tag where
  span : Span
  highlight : Highlight
deriving DecidableEq, Repr

end Scriptlet
