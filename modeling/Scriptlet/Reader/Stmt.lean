import Scriptlet.Reader.Expr

/-!
# Reading programs

A program is a list of declarations. Reading a declaration either succeeds or records one problem
and moves on to the next boundary, so a malformed declaration never hides those after it. Blocks
recover on their own: a problem inside a block is recorded there and the block goes on.
-/

namespace Scriptlet

/-- How statements are ended: a file needs every terminator, an interactive line may leave them
out. -/
inductive Mode where
  | file
  | interactive
deriving DecidableEq, Repr

/-- The stream and the problems recorded so far. -/
structure Page where
  stream : Stream
  errors : List ReadError
deriving DecidableEq, Repr

/-- Reading declarations. -/
abbrev PageReading := EStateM ReadError Page

/-- Read from the stream of a page. -/
@[inline]
def Reading.onPage {α : Type} (r : Reading α) : PageReading α := fun page =>
  match r page.stream with
  | .ok a s => .ok a { page with stream := s }
  | .error e s => .error e { page with stream := s }

instance : MonadLift Reading PageReading := ⟨Reading.onPage⟩

/-- The page after a failed declaration that started at `start`: the problem is recorded, at least
one token is passed, and the stream moves on to the next boundary. -/
def Page.recover (start : Stream) (boundary : Boundary) (e : ReadError) (page : Page) : Page :=
  let moved :=
    if page.stream.position = start.position then page.stream.advance else page.stream
  ⟨moved.toBoundary boundary, page.errors ++ [e]⟩

/-- Read a declaration; if that fails, recover. -/
@[inline]
def PageReading.recovering {α : Type} (boundary : Boundary) (r : PageReading α) :
    PageReading (Option α) := fun page =>
  match r page with
  | .ok a next => .ok (some a) next
  | .error e next => .ok none (next.recover page.stream boundary e)

open Reading

/-- The end of a statement. -/
def readTerminator (mode : Mode) (expected : Expectation) : Reading Unit := do
  if ← eat .semicolon then return ()
  else if mode = .interactive then return ()
  else fail expected

/-- Parameter names separated by commas, at least one. -/
def readParametersRest : Nat → Reading (List Name)
  | 0 => fail .lessNesting
  | n + 1 => do
    let param ← expect .identifier .parameterName
    if ← eat .comma then
      let rest ← readParametersRest n
      return param.name :: rest
    else
      return [param.name]

/-- The parameters of a function with their parentheses. -/
def readParameters (n : Nat) : Reading (List Name) := do
  let _ ← expect .leftParen .openParameters
  let params ← if (← kind) = .rightParen then pure [] else readParametersRest n
  let _ ← expect .rightParen .closedParameters
  return params

/-- A variable or constant, after its keyword. -/
def readVariable (mode : Mode) (constant : Bool) (n : Nat) : Reading Stmt := do
  let name ← expect .identifier .variableName
  let value ← if ← eat .equal then some <$> Expr.read n else pure none
  if constant && value.isNone then fail .constantValue
  else
    readTerminator mode .declarationEnd
    return .declare name.name value constant

/-- A return, after its keyword, which stands at `keyword`. At the end of the text the terminator
may be missing. -/
def readReturn (mode : Mode) (keyword : Span) (n : Nat) : Reading Stmt := do
  let first ← kind
  let value ← if first = .semicolon ∨ first = .eof then pure none else some <$> Expr.read n
  if (← kind) ≠ .eof then readTerminator mode .returnEnd
  let span := match value with
    | some e => keyword.merge e.span
    | none => keyword
  return .ret span value

/-- A member of a class body. -/
inductive Member where
  | field (decl : FieldDecl)
  | method (decl : FunctionDecl Stmt)

/-- The field that a member declares. -/
def Member.field? : Member → Option FieldDecl
  | field decl => some decl
  | method _ => none

/-- The method that a member declares. -/
def Member.method? : Member → Option (FunctionDecl Stmt)
  | field _ => none
  | method decl => some decl

/-- A class from its members. The last method with the name of the class is its constructor, and no
method with that name is an ordinary one. -/
def ClassDecl.ofMembers (name : Name) (superclass : Option Name) (members : List Member) :
    ClassDecl Stmt :=
  let methods := members.filterMap Member.method?
  { name
    superclass
    fields := members.filterMap Member.field?
    methods := methods.filter (·.name.text != name.text)
    constructor := (methods.filter (·.name.text == name.text)).getLast? }

mutual

/-- A declaration or statement. -/
def Stmt.read (mode : Mode) : Nat → PageReading Stmt
  | 0 => (fail .lessNesting : Reading Stmt)
  | n + 1 => do
    match ← kind with
    | .kwVar =>
      let _ ← next
      readVariable mode false n
    | .kwConst =>
      let _ ← next
      readVariable mode true n
    | .kwFunction =>
      let _ ← next
      let name ← expect .identifier .functionName
      return .function (← Stmt.readFunction mode name.name false n)
    | .kwClass =>
      let _ ← next
      return .classDecl (← Stmt.readClass mode n)
    | _ => Stmt.readPlain mode n

/-- A statement that declares nothing. -/
def Stmt.readPlain (mode : Mode) : Nat → PageReading Stmt
  | 0 => (fail .lessNesting : Reading Stmt)
  | n + 1 => do
    match ← kind with
    | .leftBrace =>
      let _ ← next
      return .block (← Stmt.readBlock mode n)
    | .kwIf =>
      let _ ← next
      let _ ← expect .leftParen .openBranchCondition
      let condition ← Expr.read n
      let _ ← expect .rightParen .closedBranchCondition
      let yes ← Stmt.readPlain mode n
      if ← eat .kwElse then
        let no ← Stmt.readPlain mode n
        return .branch condition yes (some no)
      else
        return .branch condition yes none
    | .kwWhile =>
      let _ ← next
      let _ ← expect .leftParen .openLoopCondition
      let condition ← Expr.read n
      let _ ← expect .rightParen .closedLoopCondition
      let body ← Stmt.readPlain mode n
      return .loop condition body
    | .kwReturn =>
      let keyword ← next
      readReturn mode keyword.span n
    | _ =>
      let e ← Expr.read n
      readTerminator mode .expressionEnd
      return .expr e

/-- The declarations of a block up to its closing brace. -/
def Stmt.readBlock (mode : Mode) : Nat → PageReading (List Stmt)
  | 0 => (fail .lessNesting : Reading (List Stmt))
  | n + 1 => do
    match ← kind with
    | .rightBrace =>
      let _ ← next
      return []
    | .eof => (fail .closedBlock : Reading (List Stmt))
    | _ =>
      let first ← PageReading.recovering .inside (Stmt.read mode n)
      let rest ← Stmt.readBlock mode n
      return first.toList ++ rest

/-- Parameters and body of a function, after its name. -/
def Stmt.readFunction (mode : Mode) (name : Name) (isMethod : Bool) :
    Nat → PageReading (FunctionDecl Stmt)
  | 0 => (fail .lessNesting : Reading (FunctionDecl Stmt))
  | n + 1 => do
    let params ← readParameters n
    let _ ← expect .leftBrace .openBody
    let body ← Stmt.readBlock mode n
    return ⟨name, params, body, isMethod⟩

/-- A class, after its keyword. -/
def Stmt.readClass (mode : Mode) : Nat → PageReading (ClassDecl Stmt)
  | 0 => (fail .lessNesting : Reading (ClassDecl Stmt))
  | n + 1 => do
    let name ← expect .identifier .className
    let superclass ←
      if ← eat .colon then
        let token ← expect .identifier .superclassName
        pure (some token.name)
      else pure none
    let _ ← expect .leftBrace .openClass
    let members ← Stmt.readMembers mode n
    return .ofMembers name.name superclass members

/-- The members of a class body up to its closing brace. -/
def Stmt.readMembers (mode : Mode) : Nat → PageReading (List Member)
  | 0 => (fail .lessNesting : Reading (List Member))
  | n + 1 => do
    match ← kind with
    | .rightBrace =>
      let _ ← next
      return []
    | .eof => (fail .closedClass : Reading (List Member))
    | _ =>
      let name ← expect .identifier .memberName
      let member ← match ← kind with
        | .equal =>
          let _ ← next
          let value ← Expr.read n
          readTerminator mode .fieldEnd
          pure (.field ⟨name.name, value⟩)
        | .leftParen => Member.method <$> Stmt.readFunction mode name.name true n
        | _ => (fail .memberRest : Reading Member)
      let rest ← Stmt.readMembers mode n
      return member :: rest

end

/-- The declarations up to the end of the tokens. -/
def readProgram (mode : Mode) : Nat → PageReading (List Stmt)
  | 0 => (fail .lessNesting : Reading (List Stmt))
  | n + 1 => do
    if (← kind) = .eof then return []
    else
      let first ← PageReading.recovering .outside (Stmt.read mode n)
      let rest ← readProgram mode n
      return first.toList ++ rest

/-- What reading gives: the statements that could be read, and the problems. -/
structure Program where
  statements : List Stmt
  errors : List ReadError

/-- Read the tokens under a stream's position and after it. -/
def Program.ofStream (mode : Mode) (s : Stream) : Program :=
  match readProgram mode s.nestingBound ⟨s, []⟩ with
  | .ok statements page => ⟨statements, page.errors⟩
  | .error e page => ⟨[], page.errors ++ [e]⟩

/-- Read a list of tokens. -/
def Program.ofTokens (mode : Mode) (tokens : List Token) : Program :=
  .ofStream mode (.ofTokens tokens)

end Scriptlet
