import Scriptlet.Reader.Stmt

/-!
# Shapes of trees

The shape of a tree is the tree without the places it was read from: every span becomes
`Span.nowhere`. Two trees have the same shape exactly if they are the same program, laid out
differently.
-/

namespace Scriptlet

/-- A name without its place. -/
def Name.bare (name : Name) : Name := ⟨name.text, .nowhere⟩

@[simp] theorem Name.bare_text (name : Name) : name.bare.text = name.text := rfl

/-! ## Expressions -/

mutual

/-- The shape of an expression. -/
def Expr.bare : Expr → Expr
  | .literal _ value => .literal .nowhere value
  | .ident name => .ident name.bare
  | .group _ inner => .group .nowhere inner.bare
  | .array _ elements => .array .nowhere (Expr.bareAll elements)
  | .unary _ op operand => .unary .nowhere op operand.bare
  | .stepThenTake _ op operand => .stepThenTake .nowhere op operand.bare
  | .takeThenStep _ op operand => .takeThenStep .nowhere op operand.bare
  | .binary _ op left right => .binary .nowhere op left.bare right.bare
  | .logical _ op left right => .logical .nowhere op left.bare right.bare
  | .ternary _ condition yes no => .ternary .nowhere condition.bare yes.bare no.bare
  | .assign _ target value => .assign .nowhere target.bare value.bare
  | .index _ target position => .index .nowhere target.bare position.bare
  | .field _ target name => .field .nowhere target.bare name.bare
  | .call _ callee args => .call .nowhere callee.bare (Expr.bareAll args)

def Expr.bareAll : List Expr → List Expr
  | [] => []
  | e :: rest => e.bare :: Expr.bareAll rest

end

theorem Expr.bareAll_eq_map (es : List Expr) : Expr.bareAll es = es.map Expr.bare := by
  induction es with
  | nil => rfl
  | cons e rest ih => rw [bareAll, ih, List.map_cons]

@[simp] theorem Expr.span_bare (e : Expr) : e.bare.span = .nowhere := by
  cases e <;> rfl

/-- The operators between two operands under one name, whatever their kind. -/
def Infix.apply (op : Infix) (span : Span) (left right : Expr) : Expr :=
  match op with
  | .binary op => .binary span op left right
  | .logical op => .logical span op left right

theorem Expr.bare_apply (op : Infix) (span : Span) (left right : Expr) :
    (op.apply span left right).bare = op.apply .nowhere left.bare right.bare := by
  cases op <;> rfl

theorem Expr.infixed_eq_apply (op : Infix) (left right : Expr) :
    Expr.infixed op left right = op.apply (left.span.merge right.span) left right := by
  cases op <;> rfl

/-! ## Statements -/

/-- A field without its place. -/
def FieldDecl.bare (field : FieldDecl) : FieldDecl := ⟨field.name.bare, field.value.bare⟩

mutual

/-- The shape of a statement. -/
def Stmt.bare : Stmt → Stmt
  | .declare name value constant => .declare name.bare (value.map Expr.bare) constant
  | .function decl => .function (bareFunction decl)
  | .classDecl decl => .classDecl (bareClass decl)
  | .ret _ value => .ret .nowhere (value.map Expr.bare)
  | .expr e => .expr e.bare
  | .block body => .block (Stmt.bareAll body)
  | .branch condition yes no => .branch condition.bare yes.bare (Stmt.bareOption no)
  | .loop condition body => .loop condition.bare body.bare

def Stmt.bareAll : List Stmt → List Stmt
  | [] => []
  | s :: rest => s.bare :: Stmt.bareAll rest

def Stmt.bareOption : Option Stmt → Option Stmt
  | none => none
  | some s => some s.bare

/-- The shape of a function. -/
def bareFunction : FunctionDecl Stmt → FunctionDecl Stmt
  | ⟨name, params, body, isMethod⟩ =>
    ⟨name.bare, params.map Name.bare, Stmt.bareAll body, isMethod⟩

def bareMethods : List (FunctionDecl Stmt) → List (FunctionDecl Stmt)
  | [] => []
  | decl :: rest => bareFunction decl :: bareMethods rest

def bareConstructor : Option (FunctionDecl Stmt) → Option (FunctionDecl Stmt)
  | none => none
  | some decl => some (bareFunction decl)

/-- The shape of a class. -/
def bareClass : ClassDecl Stmt → ClassDecl Stmt
  | ⟨name, superclass, fields, methods, constructor⟩ =>
    ⟨name.bare, superclass.map Name.bare, fields.map FieldDecl.bare, bareMethods methods,
      bareConstructor constructor⟩

end

theorem Stmt.bareAll_eq_map (body : List Stmt) : Stmt.bareAll body = body.map Stmt.bare := by
  induction body with
  | nil => rfl
  | cons st rest ih => rw [bareAll, ih, List.map_cons]

theorem bareMethods_eq_map (decls : List (FunctionDecl Stmt)) :
    bareMethods decls = decls.map bareFunction := by
  induction decls with
  | nil => rfl
  | cons decl rest ih => rw [bareMethods, ih, List.map_cons]

theorem bareConstructor_eq_map (decl : Option (FunctionDecl Stmt)) :
    bareConstructor decl = decl.map bareFunction := by
  cases decl <;> rfl

theorem bareFunction_eq (decl : FunctionDecl Stmt) :
    bareFunction decl =
      ⟨decl.name.bare, decl.params.map Name.bare, Stmt.bareAll decl.body, decl.isMethod⟩ := by
  cases decl
  rfl

theorem bareClass_eq (decl : ClassDecl Stmt) :
    bareClass decl =
      ⟨decl.name.bare, decl.superclass.map Name.bare, decl.fields.map FieldDecl.bare,
        decl.methods.map bareFunction, decl.constructor.map bareFunction⟩ := by
  cases decl
  rw [bareClass, bareMethods_eq_map, bareConstructor_eq_map]

@[simp] theorem bareFunction_name (decl : FunctionDecl Stmt) :
    (bareFunction decl).name = decl.name.bare := by
  rw [bareFunction_eq]

/-! ## Class members -/

/-- A member of a class body without its place. -/
def Member.bare : Member → Member
  | field decl => field decl.bare
  | method decl => method (bareFunction decl)

theorem Member.field?_bare (member : Member) :
    member.bare.field? = member.field?.map FieldDecl.bare := by
  cases member <;> rfl

theorem Member.method?_bare (member : Member) :
    member.bare.method? = member.method?.map bareFunction := by
  cases member <;> rfl

/-- Sorting members into fields, methods and the constructor goes by their names only, so it
commutes with taking shapes. -/
theorem bareClass_ofMembers (name : Name) (superclass : Option Name) (members : List Member) :
    bareClass (.ofMembers name superclass members) =
      .ofMembers name.bare (superclass.map Name.bare) (members.map Member.bare) := by
  have fields : (members.map Member.bare).filterMap Member.field? =
      (members.filterMap Member.field?).map FieldDecl.bare := by
    rw [List.filterMap_map, List.map_filterMap]
    exact congrArg (members.filterMap ·) (funext Member.field?_bare)
  have methods : (members.map Member.bare).filterMap Member.method? =
      (members.filterMap Member.method?).map bareFunction := by
    rw [List.filterMap_map, List.map_filterMap]
    exact congrArg (members.filterMap ·) (funext Member.method?_bare)
  rw [bareClass_eq]
  simp only [ClassDecl.ofMembers, fields, methods, List.filter_map, List.getLast?_map,
    Function.comp_def, bareFunction_name, Name.bare_text]

end Scriptlet
