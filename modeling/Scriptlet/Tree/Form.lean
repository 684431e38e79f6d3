import Scriptlet.Tree
import Scriptlet.Number.Text

/-!
# The parenthesised form of trees

A tree written out in full, spans included: every node is a parenthesised list that starts with a
word for what it is. Two trees have the same form exactly if they agree in everything that the
reader decides, which makes the form useful for comparing trees.
-/

namespace Scriptlet

/-- A node with its parts. -/
def parenthesised (parts : List String) : String := "(" ++ " ".intercalate parts ++ ")"

/-- A name with its place. -/
def Name.form (n : Name) : String := n.text ++ "@" ++ n.span.text

/-- Parameters between brackets. -/
def paramsForm (params : List Name) : String := "[" ++ " ".intercalate (params.map Name.form) ++ "]"

/-- A character of a quoted text. -/
def formChar (c : Char) : List Char :=
  if c = '\\' then ['\\', '\\']
  else if c = '"' then ['\\', '"']
  else if c = '\n' then ['\\', 'n']
  else [c]

def Constant.form (span : Span) : Constant → String
  | .null => parenthesised ["null", span.text]
  | .bool b => parenthesised ["bool", span.text, if b then "true" else "false"]
  | .number x => parenthesised ["num", span.text, Number.text x]
  | .text s =>
    parenthesised ["str", span.text, String.ofList ('"' :: (s.toList.flatMap formChar ++ ['"']))]

mutual

def Expr.form : Expr → String
  | .literal span value => value.form span
  | .ident name => parenthesised ["var", name.span.text, name.form]
  | .group span inner => parenthesised ["group", span.text, inner.form]
  | .array span elements => parenthesised ("array" :: span.text :: Expr.forms elements)
  | .unary span op operand => parenthesised ["unary", span.text, op.symbol, operand.form]
  | .stepThenTake span op operand => parenthesised ["prefix", span.text, op.symbol, operand.form]
  | .takeThenStep span op operand => parenthesised ["postfix", span.text, op.symbol, operand.form]
  | .binary span op left right =>
    parenthesised ["binary", span.text, op.symbol, left.form, right.form]
  | .logical span op left right =>
    parenthesised ["logic", span.text, op.symbol, left.form, right.form]
  | .ternary span condition yes no =>
    parenthesised ["ternary", span.text, condition.form, yes.form, no.form]
  | .assign span target value => parenthesised ["assign", span.text, target.form, value.form]
  | .index span target position => parenthesised ["index", span.text, target.form, position.form]
  | .field span target name => parenthesised ["dot", span.text, name.form, target.form]
  | .call span callee args => parenthesised ("call" :: span.text :: callee.form :: Expr.forms args)

def Expr.forms : List Expr → List String
  | [] => []
  | e :: rest => e.form :: Expr.forms rest

end

/-- An expression that may be missing. -/
def Expr.optionForm : Option Expr → String
  | some e => e.form
  | none => "-"

def FieldDecl.form (f : FieldDecl) : String := parenthesised ["field", f.name.form, f.value.form]

mutual

def Stmt.form : Stmt → String
  | .declare name value constant =>
    parenthesised [if constant then "const" else "let", name.form, Expr.optionForm value]
  | .function decl => functionForm "function" decl
  | .classDecl decl => classForm decl
  | .ret span value => parenthesised ["return", span.text, Expr.optionForm value]
  | .expr e => parenthesised ["expr", e.form]
  | .block body => parenthesised ("block" :: Stmt.forms body)
  | .branch condition yes no => parenthesised ["if", condition.form, yes.form, Stmt.optionForm no]
  | .loop condition body => parenthesised ["while", condition.form, body.form]

def Stmt.forms : List Stmt → List String
  | [] => []
  | s :: rest => s.form :: Stmt.forms rest

def Stmt.optionForm : Option Stmt → String
  | none => "-"
  | some s => s.form

def functionForm (word : String) : FunctionDecl Stmt → String
  | ⟨name, params, body, _⟩ =>
    parenthesised (word :: name.form :: paramsForm params :: Stmt.forms body)

def methodForms : List (FunctionDecl Stmt) → List String
  | [] => []
  | m :: rest => functionForm "method" m :: methodForms rest

def constructorForm : Option (FunctionDecl Stmt) → List String
  | none => []
  | some decl => [functionForm "ctor" decl]

def classForm : ClassDecl Stmt → String
  | ⟨name, superclass, fields, methods, constructor⟩ =>
    parenthesised ("class" :: name.form :: ((superclass.map Name.form).getD "-") ::
      (fields.map FieldDecl.form ++ methodForms methods ++ constructorForm constructor))

end

end Scriptlet
