import Scriptlet.Operator

/-!
# Program trees

Expressions and statements as they are read. Every expression knows the span it was read from;
names keep theirs too, because faults and highlighting point at them.
-/

namespace Scriptlet

/-- A name where it stands in the text. -/
structure Name where
  text : String
  span : Span
deriving DecidableEq, Repr

/-- The name that a token writes. -/
def Token.name (t : Token) : Name := ⟨t.lexeme, t.span⟩

/-- A value written in the program. -/
inductive Constant where
  | null
  | bool (value : Bool)
  | number (value : Float)
  | text (value : String)
deriving DecidableEq, Repr

def Literal.constant : Literal → Constant
  | .number x => .number x
  | .text s => .text s

inductive Expr where
  | literal (span : Span) (value : Constant)
  | ident (name : Name)
  | group (span : Span) (inner : Expr)
  | array (span : Span) (elements : List Expr)
  | unary (span : Span) (op : UnaryOp) (operand : Expr)
  /-- `++x`: change, then take the new value. -/
  | stepThenTake (span : Span) (op : StepOp) (operand : Expr)
  /-- `x++`: take the old value, then change. -/
  | takeThenStep (span : Span) (op : StepOp) (operand : Expr)
  | binary (span : Span) (op : BinaryOp) (left right : Expr)
  | logical (span : Span) (op : LogicalOp) (left right : Expr)
  | ternary (span : Span) (condition yes no : Expr)
  | assign (span : Span) (target value : Expr)
  | index (span : Span) (target position : Expr)
  | field (span : Span) (target : Expr) (name : Name)
  | call (span : Span) (callee : Expr) (args : List Expr)
deriving Repr, Inhabited

namespace Expr

/-- The span an expression was read from. -/
def span : Expr → Span
  | ident name => name.span
  | literal s _ | group s _ | array s _ | unary s _ _ | stepThenTake s _ _ | takeThenStep s _ _
  | binary s _ _ _ | logical s _ _ _ | ternary s _ _ _ | assign s _ _ | index s _ _ | field s _ _
  | call s _ _ => s

/-- Whether an expression names a place that can be written. -/
def isAssignable : Expr → Bool
  | ident _ | index .. | field .. => true
  | _ => false

/-- An operator between two operands. -/
def infixed (op : Infix) (left right : Expr) : Expr :=
  let span := left.span.merge right.span
  match op with
  | .binary op => binary span op left right
  | .logical op => logical span op left right

/-- The assignment of `value` to `target`. -/
def assigned (target value : Expr) : Expr := assign (target.span.merge value.span) target value

@[simp] theorem span_infixed (op : Infix) (left right : Expr) :
    (infixed op left right).span = left.span.merge right.span := by
  cases op <;> rfl

end Expr

/-- A function as it is declared; `σ` is the type of the statements of its body. -/
structure FunctionDecl (σ : Type) where
  name : Name
  params : List Name
  body : List σ
  /-- Whether the function is declared in a class. -/
  isMethod : Bool
deriving Repr

/-- The number of arguments that a call has to bring. -/
def FunctionDecl.arity {σ : Type} (d : FunctionDecl σ) : Nat := d.params.length

/-- A field of a class with the expression that computes its first value. -/
structure FieldDecl where
  name : Name
  value : Expr
deriving Repr

/-- A class as it is declared: the constructor is the method that has the name of the class. -/
structure ClassDecl (σ : Type) where
  name : Name
  superclass : Option Name
  fields : List FieldDecl
  methods : List (FunctionDecl σ)
  constructor : Option (FunctionDecl σ)
deriving Repr

/-- The number of arguments that creating an instance has to bring. -/
def ClassDecl.arity {σ : Type} (d : ClassDecl σ) : Nat :=
  match d.constructor with
  | some decl => decl.arity
  | none => 0

inductive Stmt where
  | declare (name : Name) (value : Option Expr) (constant : Bool)
  | function (decl : FunctionDecl Stmt)
  | classDecl (decl : ClassDecl Stmt)
  | ret (span : Span) (value : Option Expr)
  | expr (e : Expr)
  | block (body : List Stmt)
  | branch (condition : Expr) (yes : Stmt) (no : Option Stmt)
  | loop (condition : Expr) (body : Stmt)
deriving Repr, Inhabited

end Scriptlet
