import Scriptlet.Paint.Highlight
import Scriptlet.Dict
import Scriptlet.Tree

/-!
# Highlights of names

Names are shown by what they are bound to. The walk over a program opens the same scopes as running
it would, and binds roles instead of values; nothing is evaluated. A name that is bound nowhere
keeps whatever highlight it has.
-/

namespace Scriptlet

/-- The scopes around a place in a program, the innermost first, with the roles of their names. -/
abbrev Frames := List (Dict Role)

namespace Frames

/-- The role of a name: that of its innermost binding. -/
def role? : Frames → String → Option Role
  | [], _ => none
  | frame :: outer, name =>
    match frame.get? name with
    | some role => some role
    | none => role? outer name

/-- Bind a name in the innermost scope. -/
def define (role : Role) (name : String) : Frames → Frames
  | [] => [Dict.empty.insert name role]
  | frame :: outer => frame.insert name role :: outer

/-- Open a scope. -/
def enter (frames : Frames) : Frames := .empty :: frames

end Frames

/-- A name shown in some way. -/
def Name.tagged (name : Name) (highlight : Highlight) : Tag := ⟨name.span, highlight⟩

/-- The tag of a reference to a name, if it is bound. -/
def referenceTags (frames : Frames) (name : Name) : List Tag :=
  ((frames.role? name.text).map fun role => name.tagged role.highlight).toList

/-- The tag of a callee before it is looked at as an expression: a bare name is shown as called. -/
def calleeTags : Expr → List Tag
  | .ident name => [name.tagged .called]
  | _ => []

/-- The tag of a callee after it was looked at as an expression: a field is shown as called. -/
def calledFieldTags : Expr → List Tag
  | .field _ _ name => [name.tagged .called]
  | _ => []

mutual

/-- The tags of the names in an expression. -/
def Expr.tags (frames : Frames) : Expr → List Tag
  | .literal .. => []
  | .ident name => referenceTags frames name
  | .group _ inner => inner.tags frames
  | .array _ elements => Expr.tagsAll frames elements
  | .unary _ _ operand | .stepThenTake _ _ operand | .takeThenStep _ _ operand =>
    operand.tags frames
  | .binary _ _ left right | .logical _ _ left right => left.tags frames ++ right.tags frames
  | .ternary _ condition yes no => condition.tags frames ++ yes.tags frames ++ no.tags frames
  | .assign _ target value => target.tags frames ++ value.tags frames
  | .index _ target position => target.tags frames ++ position.tags frames
  | .field _ target name => name.tagged .accessor :: target.tags frames
  | .call _ callee args =>
    Expr.tagsAll frames args ++ calleeTags callee ++ callee.tags frames ++ calledFieldTags callee

def Expr.tagsAll (frames : Frames) : List Expr → List Tag
  | [] => []
  | e :: rest => e.tags frames ++ Expr.tagsAll frames rest

end

/-- The tags of an expression that may be missing. -/
def Expr.optionTags (frames : Frames) : Option Expr → List Tag
  | some e => e.tags frames
  | none => []

/-- The scope of a function body before its first statement. -/
def Frames.withParams (frames : Frames) (params : List Name) : Frames :=
  params.foldl (fun acc param => acc.define .argument param.text) frames.enter

/-- The scope that the members of a class share. -/
def Frames.withClass (frames : Frames) (superclass : Option Name) : Frames :=
  let own := frames.enter.define .this "this"
  if superclass.isSome then (own.define .base "base").define .super "super" else own

/-- The tags of the fields of a class. -/
def FieldDecl.tags (frames : Frames) (f : FieldDecl) : List Tag :=
  f.name.tagged .variableName :: f.value.tags frames

mutual

/-- The scopes after a statement, and the tags of its names. -/
def Stmt.paint (frames : Frames) : Stmt → Frames × List Tag
  | .declare name value _ =>
    let after := frames.define .variableName name.text
    (after, name.tagged .variableName :: Expr.optionTags after value)
  | .function decl => functionPaint frames decl
  | .classDecl decl => classPaint frames decl
  | .ret _ value => (frames, Expr.optionTags frames value)
  | .expr e => (frames, e.tags frames)
  | .block body => (frames, (Stmt.paintAll frames.enter body).2)
  | .branch condition yes no =>
    let (afterYes, yesTags) := yes.paint frames
    let (afterNo, noTags) := Stmt.optionPaint afterYes no
    (afterNo, condition.tags frames ++ yesTags ++ noTags)
  | .loop condition body =>
    let (after, bodyTags) := body.paint frames
    (after, condition.tags frames ++ bodyTags)

def Stmt.paintAll (frames : Frames) : List Stmt → Frames × List Tag
  | [] => (frames, [])
  | s :: rest =>
    let (after, tags) := s.paint frames
    let (final, more) := Stmt.paintAll after rest
    (final, tags ++ more)

def Stmt.optionPaint (frames : Frames) : Option Stmt → Frames × List Tag
  | none => (frames, [])
  | some s => s.paint frames

/-- A function binds its name, unless it is a method, and opens a scope for its parameters. -/
def functionPaint (frames : Frames) : FunctionDecl Stmt → Frames × List Tag
  | ⟨name, params, body, isMethod⟩ =>
    let after := if isMethod then frames else frames.define .functionName name.text
    let paramTags := params.map (·.tagged .argument)
    let bodyTags := (Stmt.paintAll (after.withParams params) body).2
    (after, name.tagged .functionName :: paramTags ++ bodyTags)

def methodsPaint (frames : Frames) : List (FunctionDecl Stmt) → Frames × List Tag
  | [] => (frames, [])
  | decl :: rest =>
    let (after, tags) := functionPaint frames decl
    let (final, more) := methodsPaint after rest
    (final, tags ++ more)

def constructorPaint (frames : Frames) : Option (FunctionDecl Stmt) → List Tag
  | none => []
  | some decl => (functionPaint frames decl).2 ++ [decl.name.tagged .constructorName]

/-- A class binds its name; its members share a scope. -/
def classPaint (frames : Frames) : ClassDecl Stmt → Frames × List Tag
  | ⟨name, superclass, fields, methods, constructor⟩ =>
    let after := frames.define .className name.text
    let inside := after.withClass superclass
    let fieldTags := fields.flatMap (FieldDecl.tags inside)
    let (inside, methodTags) := methodsPaint inside methods
    let constructorTags := constructorPaint inside constructor
    let superTags := (superclass.map (·.tagged .className)).toList
    (after, name.tagged .className :: fieldTags ++ methodTags ++ constructorTags ++ superTags)

end

/-- The tags of the names in a program. -/
def nameTags (statements : List Stmt) : List Tag :=
  (Stmt.paintAll [Dict.empty] statements).2

end Scriptlet
