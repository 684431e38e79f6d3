import Scriptlet.Proofs.Shape

/-!
# Spelling of trees

`Expr.spelling` and `Stmt.spelling` write a tree with its own tokens only: parentheses stand only
where the tree has a group, and nothing is added to make the grammar unambiguous. What has to be
read back is therefore not every tree, but the trees that obey the precedence ladder: those are
`Expr.Canonical` and `Stmt.Canonical`.

A spelling says of each token what the grammar looks at: its kind, the text of a name, and the
value of a literal. Lexemes of other tokens, lines and spans are left open (`Token.Writes`).
-/

namespace Scriptlet

/-- What the grammar looks at in a token. -/
inductive Symbol where
  /-- A token that is determined by its kind. -/
  | fixed (kind : TokenKind)
  | name (text : String)
  | literal (value : Literal)

namespace Symbol

def kind : Symbol → TokenKind
  | fixed kind => kind
  | name _ => .identifier
  | literal (.number _) => .numberLiteral
  | literal (.text _) => .textLiteral

end Symbol

/-- A token that writes a symbol. -/
def Token.Writes (t : Token) : Symbol → Prop
  | .fixed kind => t.kind = kind
  | .name text => t.kind = .identifier ∧ t.lexeme = text
  | .literal (.number x) => t.kind = .numberLiteral ∧ t.literal = some (.number x)
  | .literal (.text x) => t.kind = .textLiteral ∧ t.literal = some (.text x)

theorem Token.Writes.kind_eq {t : Token} {x : Symbol} (h : t.Writes x) : t.kind = x.kind := by
  cases x with
  | fixed kind => exact h
  | name text => exact h.1
  | literal value => cases value <;> exact h.1

/-! ## The tokens of operators -/

/-- The token that writes an operator between two operands. -/
def Infix.token : Infix → TokenKind
  | binary .add => .plus
  | binary .sub => .minus
  | binary .mul => .star
  | binary .div => .slash
  | binary .bitOr => .pipe
  | binary .bitAnd => .ampersand
  | binary .bitXor => .caret
  | binary .eq => .equalEqual
  | binary .ne => .bangEqual
  | binary .lt => .less
  | binary .le => .lessEqual
  | binary .gt => .greater
  | binary .ge => .greaterEqual
  | logical .and => .ampersandAmpersand
  | logical .or => .pipePipe
  | logical .coalesce => .questionQuestion

/-- The token that writes a sign. -/
def UnaryOp.token : UnaryOp → TokenKind
  | not => .bang
  | neg => .minus

/-- The token that writes a step. -/
def StepOp.token : StepOp → TokenKind
  | increment => .plusPlus
  | decrement => .minusMinus

@[simp] theorem Infix.ofToken?_token (op : Infix) : Infix.ofToken? op.token = some op := by
  rcases op with op | op <;> cases op <;> rfl

@[simp] theorem UnaryOp.ofToken?_token (op : UnaryOp) : UnaryOp.ofToken? op.token = some op := by
  cases op <;> rfl

@[simp] theorem StepOp.ofToken?_token (op : StepOp) : StepOp.ofToken? op.token = some op := by
  cases op <;> rfl

/-! ## Expressions -/

def Constant.symbol : Constant → Symbol
  | null => .fixed .kwNull
  | bool true => .fixed .kwTrue
  | bool false => .fixed .kwFalse
  | number x => .literal (.number x)
  | text x => .literal (.text x)

/-- Spellings with a comma before each of them. -/
def afterCommas : List (List Symbol) → List Symbol
  | [] => []
  | one :: rest => .fixed .comma :: one ++ afterCommas rest

/-- Spellings with commas between them. -/
def separated : List (List Symbol) → List Symbol
  | [] => []
  | one :: rest => one ++ afterCommas rest

mutual

/-- The symbols that write an expression. -/
def Expr.spelling : Expr → List Symbol
  | .literal _ value => [value.symbol]
  | .ident name => [.name name.text]
  | .group _ inner => .fixed .leftParen :: inner.spelling ++ [.fixed .rightParen]
  | .array _ elements =>
    .fixed .leftBracket :: separated (Expr.spellings elements) ++ [.fixed .rightBracket]
  | .unary _ op operand => .fixed op.token :: operand.spelling
  | .stepThenTake _ op operand => .fixed op.token :: operand.spelling
  | .takeThenStep _ op operand => operand.spelling ++ [.fixed op.token]
  | .binary _ op left right =>
    left.spelling ++ .fixed (Infix.binary op).token :: right.spelling
  | .logical _ op left right =>
    left.spelling ++ .fixed (Infix.logical op).token :: right.spelling
  | .ternary _ condition yes no =>
    condition.spelling ++ .fixed .question :: yes.spelling ++ .fixed .colon :: no.spelling
  | .assign _ target value => target.spelling ++ .fixed .equal :: value.spelling
  | .index _ target position =>
    target.spelling ++ .fixed .leftBracket :: position.spelling ++ [.fixed .rightBracket]
  | .field _ target name => target.spelling ++ [.fixed .dot, .name name.text]
  | .call _ callee args =>
    callee.spelling ++ .fixed .leftParen :: separated (Expr.spellings args) ++
      [.fixed .rightParen]

def Expr.spellings : List Expr → List (List Symbol)
  | [] => []
  | e :: rest => e.spelling :: Expr.spellings rest

end

namespace Expr

/-- The level of an expression on the precedence ladder: choice, the levels of the infix operators,
signs, steps before, steps after, primaries. An assignment is a primary, because it ends the chain
of the name it starts with. -/
def level : Expr → Nat
  | ternary .. => 0
  | binary _ op _ _ => (Infix.binary op).level + 1
  | logical _ op _ _ => (Infix.logical op).level + 1
  | unary .. => 8
  | stepThenTake .. => 9
  | takeThenStep .. => 10
  | _ => 11

/-- A name followed by fields, indices and calls. -/
def isChain : Expr → Bool
  | ident _ => true
  | index _ target _ => target.isChain
  | field _ target _ => target.isChain
  | call _ callee _ => callee.isChain
  | _ => false

/-- Whether the last part of an expression, not closed off by a token of its own, is an assignment.
Such an expression takes in every operator that follows it. -/
def endsInAssignment : Expr → Bool
  | assign .. => true
  | unary _ _ operand => operand.endsInAssignment
  | stepThenTake _ _ operand => operand.endsInAssignment
  | binary _ _ _ right => right.endsInAssignment
  | logical _ _ _ right => right.endsInAssignment
  | ternary _ _ _ no => no.endsInAssignment
  | _ => false

/-- Expressions that obey the precedence ladder: left operands at the level of the operator or
above it, right operands above it, targets are chains, and nothing that ends in an assignment stands
before further tokens of an operator. -/
inductive Canonical : Expr → Prop
  | literal (span value) : Canonical (.literal span value)
  | ident (name) : Canonical (.ident name)
  | group {span inner} : Canonical inner → Canonical (.group span inner)
  | array {span elements} : (∀ e ∈ elements, Canonical e) → Canonical (.array span elements)
  | unary {span op operand} : Canonical operand → 8 ≤ operand.level →
      Canonical (.unary span op operand)
  | stepThenTake {span op operand} : Canonical operand → 10 ≤ operand.level →
      Canonical (.stepThenTake span op operand)
  | takeThenStep {span op operand} : Canonical operand → 11 ≤ operand.level →
      operand.endsInAssignment = false → Canonical (.takeThenStep span op operand)
  | infixed {span left right} (op : Infix) : Canonical left → Canonical right →
      op.level + 1 ≤ left.level → op.level + 1 < right.level → left.endsInAssignment = false →
      Canonical (op.apply span left right)
  | ternary {span condition yes no} : Canonical condition → Canonical yes → Canonical no →
      0 < condition.level → condition.endsInAssignment = false →
      Canonical (.ternary span condition yes no)
  | assign {span target value} : Canonical target → Canonical value → target.isChain = true →
      Canonical (.assign span target value)
  | index {span target position} : Canonical target → Canonical position →
      target.isChain = true → Canonical (.index span target position)
  | field {span target name} : Canonical target → target.isChain = true →
      Canonical (.field span target name)
  | call {span callee args} : Canonical callee → callee.isChain = true →
      (∀ e ∈ args, Canonical e) → Canonical (.call span callee args)

@[simp] theorem spelling_apply (op : Infix) (span : Span) (left right : Expr) :
    (op.apply span left right).spelling =
      left.spelling ++ .fixed op.token :: right.spelling := by
  cases op <;> simp [Infix.apply, spelling]

@[simp] theorem level_apply (op : Infix) (span : Span) (left right : Expr) :
    (op.apply span left right).level = op.level + 1 := by
  cases op <;> rfl

@[simp] theorem endsInAssignment_apply (op : Infix) (span : Span) (left right : Expr) :
    (op.apply span left right).endsInAssignment = right.endsInAssignment := by
  cases op <;> rfl

@[simp] theorem isChain_apply (op : Infix) (span : Span) (left right : Expr) :
    (op.apply span left right).isChain = false := by
  cases op <;> rfl

end Expr

/-! ## Statements -/

/-- The symbols that write parameters, with their parentheses. -/
def spellParameters (params : List Name) : List Symbol :=
  .fixed .leftParen :: separated (params.map fun param => [.name param.text]) ++
    [.fixed .rightParen]

/-- The symbols that write a returned value. -/
def Expr.spellOption : Option Expr → List Symbol
  | some e => e.spelling
  | none => []

/-- The symbols that write the first value of a variable, with the sign before it. -/
def Expr.spellInitial : Option Expr → List Symbol
  | some e => .fixed .equal :: e.spelling
  | none => []

/-- The symbols that write the superclass of a class, with the sign before it. -/
def spellSuperclass : Option Name → List Symbol
  | some parent => [.fixed .colon, .name parent.text]
  | none => []

/-- The symbols that write a field of a class. -/
def FieldDecl.spelling (field : FieldDecl) : List Symbol :=
  .name field.name.text :: .fixed .equal :: field.value.spelling ++ [.fixed .semicolon]

mutual

/-- The symbols that write a statement. -/
def Stmt.spelling : Stmt → List Symbol
  | .declare name value constant =>
    .fixed (if constant then .kwConst else .kwVar) :: .name name.text ::
      Expr.spellInitial value ++ [.fixed .semicolon]
  | .function decl => .fixed .kwFunction :: spellFunction decl
  | .classDecl decl => .fixed .kwClass :: spellClass decl
  | .ret _ value => .fixed .kwReturn :: Expr.spellOption value ++ [.fixed .semicolon]
  | .expr e => e.spelling ++ [.fixed .semicolon]
  | .block body => .fixed .leftBrace :: Stmt.spellAll body ++ [.fixed .rightBrace]
  | .branch condition yes no =>
    .fixed .kwIf :: .fixed .leftParen :: condition.spelling ++ .fixed .rightParen ::
      yes.spelling ++ Stmt.spellElse no
  | .loop condition body =>
    .fixed .kwWhile :: .fixed .leftParen :: condition.spelling ++ .fixed .rightParen ::
      body.spelling

def Stmt.spellAll : List Stmt → List Symbol
  | [] => []
  | s :: rest => s.spelling ++ Stmt.spellAll rest

def Stmt.spellElse : Option Stmt → List Symbol
  | none => []
  | some s => .fixed .kwElse :: s.spelling

/-- The symbols that write a function, from its name on. -/
def spellFunction : FunctionDecl Stmt → List Symbol
  | ⟨name, params, body, _⟩ =>
    .name name.text :: spellParameters params ++
      .fixed .leftBrace :: Stmt.spellAll body ++ [.fixed .rightBrace]

def spellMethods : List (FunctionDecl Stmt) → List Symbol
  | [] => []
  | decl :: rest => spellFunction decl ++ spellMethods rest

def spellConstructor : Option (FunctionDecl Stmt) → List Symbol
  | none => []
  | some decl => spellFunction decl

/-- The symbols that write a class, from its name on: the fields first, then the methods, then the
constructor. -/
def spellClass : ClassDecl Stmt → List Symbol
  | ⟨name, superclass, fields, methods, constructor⟩ =>
    .name name.text :: spellSuperclass superclass ++
      .fixed .leftBrace :: fields.flatMap FieldDecl.spelling ++ spellMethods methods ++
        spellConstructor constructor ++ [.fixed .rightBrace]

end

/-- The members of a class in the order in which they are written. -/
def ClassDecl.members (decl : ClassDecl Stmt) : List Member :=
  decl.fields.map .field ++ decl.methods.map .method ++ decl.constructor.toList.map .method

namespace Stmt

/-- Statements that declare nothing, which may stand alone in a branch or loop. -/
def isPlain : Stmt → Bool
  | declare .. | function _ | classDecl _ => false
  | _ => true

mutual

/-- Whether a statement ends in a branch that an `else` after it would extend. -/
def endsOpen : Stmt → Bool
  | branch _ _ no => endsOpenElse no
  | loop _ body => body.endsOpen
  | _ => false

def endsOpenElse : Option Stmt → Bool
  | none => true
  | some s => s.endsOpen

end

/-- Statements whose expressions are canonical and whose form the grammar has: constants have a
value, branches and loops declare nothing outside a block, no `else` belongs to an inner branch,
and exactly the constructor of a class has its name. -/
inductive Canonical : Stmt → Prop
  | declare {name value constant} : (∀ e ∈ value, Expr.Canonical e) →
      (constant = true → value.isSome = true) → Canonical (.declare name value constant)
  | function {decl} : decl.isMethod = false → (∀ s ∈ decl.body, Canonical s) →
      Canonical (.function decl)
  | classDecl {decl} : (∀ field ∈ decl.fields, field.value.Canonical) →
      (∀ method ∈ decl.methods, method.isMethod = true ∧ method.name.text ≠ decl.name.text) →
      (∀ method ∈ decl.methods, ∀ s ∈ method.body, Canonical s) →
      (∀ method ∈ decl.constructor, method.isMethod = true ∧ method.name.text = decl.name.text) →
      (∀ method ∈ decl.constructor, ∀ s ∈ method.body, Canonical s) →
      Canonical (.classDecl decl)
  | ret {span value} : (∀ e ∈ value, Expr.Canonical e) → Canonical (.ret span value)
  | expr {e} : e.Canonical → Canonical (.expr e)
  | block {body} : (∀ s ∈ body, Canonical s) → Canonical (.block body)
  | branch {condition yes no} : condition.Canonical → Canonical yes → yes.isPlain = true →
      (∀ s ∈ no, Canonical s) → (∀ s ∈ no, s.isPlain = true) →
      (no.isSome = true → yes.endsOpen = false) → Canonical (.branch condition yes no)
  | loop {condition body} : condition.Canonical → Canonical body → body.isPlain = true →
      Canonical (.loop condition body)

end Stmt

/-! ## Spellings hold program tokens only -/

/-- Symbols that the reader neither skips nor takes for the end. -/
def Symbol.isPart (x : Symbol) : Bool := x.kind != .eof && !x.kind.isTrivia

theorem all_afterCommas (spellings : List (List Symbol)) :
    (afterCommas spellings).all Symbol.isPart = spellings.all (·.all Symbol.isPart) := by
  induction spellings with
  | nil => rfl
  | cons one rest ih =>
    have comma : (Symbol.fixed .comma).isPart = true := rfl
    simp only [afterCommas, List.all_append, List.all_cons, ih, comma, Bool.true_and]

theorem all_separated (spellings : List (List Symbol)) :
    (separated spellings).all Symbol.isPart = spellings.all (·.all Symbol.isPart) := by
  cases spellings with
  | nil => rfl
  | cons one rest => rw [separated, List.all_append, all_afterCommas, List.all_cons]

theorem Symbol.isPart_name (text : String) : (Symbol.name text).isPart = true := rfl

theorem Infix.isPart_token (op : Infix) : (Symbol.fixed op.token).isPart = true := by
  rcases op with op | op <;> cases op <;> rfl

theorem UnaryOp.isPart_token (op : UnaryOp) : (Symbol.fixed op.token).isPart = true := by
  cases op <;> rfl

theorem StepOp.isPart_token (op : StepOp) : (Symbol.fixed op.token).isPart = true := by
  cases op <;> rfl

theorem Constant.isPart_symbol (value : Constant) : value.symbol.isPart = true := by
  cases value with
  | bool b => cases b <;> rfl
  | _ => rfl

/-- The marks that stand in spellings. -/
theorem isPart_marks : ∀ kind ∈ [TokenKind.leftParen, .rightParen, .leftBracket, .rightBracket,
    .leftBrace, .rightBrace, .question, .colon, .equal, .dot, .semicolon, .kwVar, .kwConst,
    .kwFunction, .kwClass, .kwReturn, .kwIf, .kwElse, .kwWhile],
    (Symbol.fixed kind).isPart = true := by
  decide

mutual

theorem Expr.all_spelling : ∀ e : Expr, e.spelling.all Symbol.isPart = true
  | .literal _ value => by simp [spelling, value.isPart_symbol]
  | .ident _ => rfl
  | .group _ inner => by simp [spelling, isPart_marks, inner.all_spelling]
  | .array _ elements => by
    simp [spelling, isPart_marks, all_separated, Expr.all_spellings elements]
  | .unary _ op operand => by simp [spelling, op.isPart_token, operand.all_spelling]
  | .stepThenTake _ op operand => by simp [spelling, op.isPart_token, operand.all_spelling]
  | .takeThenStep _ op operand => by simp [spelling, op.isPart_token, operand.all_spelling]
  | .binary _ op left right => by
    simp [spelling, Infix.isPart_token, left.all_spelling, right.all_spelling]
  | .logical _ op left right => by
    simp [spelling, Infix.isPart_token, left.all_spelling, right.all_spelling]
  | .ternary _ condition yes no => by
    simp [spelling, isPart_marks, condition.all_spelling, yes.all_spelling, no.all_spelling]
  | .assign _ target value => by
    simp [spelling, isPart_marks, target.all_spelling, value.all_spelling]
  | .index _ target position => by
    simp [spelling, isPart_marks, target.all_spelling, position.all_spelling]
  | .field _ target name => by
    simp [spelling, isPart_marks, Symbol.isPart_name, target.all_spelling]
  | .call _ callee args => by
    simp [spelling, isPart_marks, all_separated, callee.all_spelling, Expr.all_spellings args]

theorem Expr.all_spellings : ∀ es : List Expr,
    (Expr.spellings es).all (·.all Symbol.isPart) = true
  | [] => rfl
  | e :: rest => by
    rw [spellings, List.all_cons, e.all_spelling, Expr.all_spellings rest]
    rfl

end

theorem Expr.all_spellOption (value : Option Expr) :
    (Expr.spellOption value).all Symbol.isPart = true := by
  cases value with
  | none => rfl
  | some e => exact e.all_spelling

theorem Expr.all_spellInitial (value : Option Expr) :
    (Expr.spellInitial value).all Symbol.isPart = true := by
  cases value with
  | none => rfl
  | some e => exact e.all_spelling

theorem all_spellParameters (params : List Name) :
    (spellParameters params).all Symbol.isPart = true := by
  simp [spellParameters, isPart_marks, all_separated, Symbol.isPart_name]

theorem all_spellSuperclass (superclass : Option Name) :
    (spellSuperclass superclass).all Symbol.isPart = true := by
  cases superclass <;> rfl

theorem FieldDecl.all_spelling (field : FieldDecl) :
    field.spelling.all Symbol.isPart = true := by
  simp [spelling, isPart_marks, Symbol.isPart_name, field.value.all_spelling]

mutual

theorem Stmt.all_spelling : ∀ st : Stmt, st.spelling.all Symbol.isPart = true
  | .declare name value constant => by
    cases constant <;>
      simp [Stmt.spelling, isPart_marks, Symbol.isPart_name, Expr.all_spellInitial value]
  | .function decl => by simp [Stmt.spelling, isPart_marks, all_spellFunction decl]
  | .classDecl decl => by simp [Stmt.spelling, isPart_marks, all_spellClass decl]
  | .ret _ value => by simp [Stmt.spelling, isPart_marks, Expr.all_spellOption value]
  | .expr e => by simp [Stmt.spelling, isPart_marks, e.all_spelling]
  | .block body => by simp [Stmt.spelling, isPart_marks, Stmt.all_spellAll body]
  | .branch condition yes no => by
    simp [Stmt.spelling, isPart_marks, condition.all_spelling, yes.all_spelling,
      Stmt.all_spellElse no]
  | .loop condition body => by
    simp [Stmt.spelling, isPart_marks, condition.all_spelling, body.all_spelling]

theorem Stmt.all_spellAll : ∀ body : List Stmt, (Stmt.spellAll body).all Symbol.isPart = true
  | [] => rfl
  | st :: rest => by
    rw [Stmt.spellAll, List.all_append, st.all_spelling, Stmt.all_spellAll rest]
    rfl

theorem Stmt.all_spellElse : ∀ no : Option Stmt, (Stmt.spellElse no).all Symbol.isPart = true
  | none => rfl
  | some st => by simp [Stmt.spellElse, isPart_marks, st.all_spelling]

theorem all_spellFunction :
    ∀ decl : FunctionDecl Stmt, (spellFunction decl).all Symbol.isPart = true
  | ⟨name, params, body, _⟩ => by
    simp [spellFunction, isPart_marks, Symbol.isPart_name, all_spellParameters params,
      Stmt.all_spellAll body]

theorem all_spellMethods :
    ∀ decls : List (FunctionDecl Stmt), (spellMethods decls).all Symbol.isPart = true
  | [] => rfl
  | decl :: rest => by
    rw [spellMethods, List.all_append, all_spellFunction decl, all_spellMethods rest]
    rfl

theorem all_spellConstructor :
    ∀ decl : Option (FunctionDecl Stmt), (spellConstructor decl).all Symbol.isPart = true
  | none => rfl
  | some decl => by rw [spellConstructor, all_spellFunction decl]

theorem all_spellClass : ∀ decl : ClassDecl Stmt, (spellClass decl).all Symbol.isPart = true
  | ⟨name, superclass, fields, methods, constructor⟩ => by
    have spelled : (fields.flatMap FieldDecl.spelling).all Symbol.isPart = true := by
      rw [List.all_flatMap]
      exact List.all_eq_true.2 fun field _ => field.all_spelling
    simp only [spellClass, List.cons_append, List.all_append, List.all_cons, List.all_nil,
      Symbol.isPart_name, all_spellSuperclass superclass, spelled, all_spellMethods methods,
      all_spellConstructor constructor]
    rfl

end

end Scriptlet
