import Scriptlet.Paint.Highlight
import Scriptlet.Token

/-!
# Highlights of tokens

Keywords, literals and comments are shown by their kind. Brackets are shown in pairs: a closing
bracket that matches the innermost open one closes it, and both get the colour of their depth. A
closing bracket that does not match, and an opening one that is never closed, get none.
-/

namespace Scriptlet

/-- How a token is shown because of its kind alone. -/
def TokenKind.highlight? : TokenKind → Option Highlight
  | .comment => some .comment
  | .kwVar | .kwConst => some .kwVar
  | .kwFunction => some .kwFunction
  | .kwClass => some .kwClass
  | .kwIf => some .kwIf
  | .kwElse => some .kwElse
  | .kwWhile => some .kwWhile
  | .kwReturn => some .kwReturn
  | .textLiteral => some .textLiteral
  | .numberLiteral => some .numberLiteral
  | .kwTrue => some .trueLiteral
  | .kwFalse => some .falseLiteral
  | .kwNull => some .nullLiteral
  | _ => none

/-- The three types of brackets. -/
inductive Bracket where
  | paren
  | square
  | curly
deriving DecidableEq, Repr

/-- The type of a bracket that opens a pair. -/
def TokenKind.opens? : TokenKind → Option Bracket
  | .leftParen => some .paren
  | .leftBracket => some .square
  | .leftBrace => some .curly
  | _ => none

/-- The type of a bracket that closes a pair. -/
def TokenKind.closes? : TokenKind → Option Bracket
  | .rightParen => some .paren
  | .rightBracket => some .square
  | .rightBrace => some .curly
  | _ => none

/-- An open bracket and where it stands. -/
structure OpenBracket where
  type : Bracket
  span : Span
deriving DecidableEq, Repr

/-- The tags that a token gives to a pair of brackets, and the brackets that are open after it; the
innermost comes first. -/
def bracketStep (waiting : List OpenBracket) (t : Token) : List Tag × List OpenBracket :=
  match t.kind.opens?, t.kind.closes? with
  | some type, _ => ([], ⟨type, t.span⟩ :: waiting)
  | none, some type =>
    match waiting with
    | [] => ([], [])
    | top :: outer =>
      if top.type = type then
        let colour := Highlight.ofDepth outer.length
        ([⟨top.span, colour⟩, ⟨t.span, colour⟩], outer)
      else ([], waiting)
  | none, none => ([], waiting)

/-- The tags of a list of tokens, where the brackets in `waiting` are open. -/
def tokenTagsFrom (waiting : List OpenBracket) : List Token → List Tag
  | [] => []
  | t :: rest =>
    let own := (t.kind.highlight?.map (Tag.mk t.span)).toList
    let (pair, waiting) := bracketStep waiting t
    own ++ pair ++ tokenTagsFrom waiting rest

/-- The tags of a list of tokens. -/
def tokenTags (tokens : List Token) : List Tag := tokenTagsFrom [] tokens

end Scriptlet
